import Stimulus.Register.RandItem

/-!
# Registers of an image converter

The parameters of a converter from YUV to RGB, and the classes of random fields for them.
-/

namespace Stimulus.Samples

/-- A parameter with its bounds. -/
structure Parameter where
  name : String
  low : Int
  high : Int
deriving DecidableEq, Repr

/-- Parameters, and the lines of constraint for some of them. -/
structure Item where
  ip : String
  parameters : List Parameter
  constraints : List (String × List String)
deriving DecidableEq, Repr

/-- The class of random fields of an item. The constraints of a parameter have its number. -/
def Item.source (item : Item) : String :=
  Register.itemText item.ip (.concat (item.parameters.zipIdx.map fun (p, i) =>
    .of p.name { low := p.low, high := p.high, bounded := true } i
      (((item.constraints.lookup p.name).getD []).map (· ++ "\n"))))

def shared : List Parameter := [
  ⟨"IsBypassMode", 0, 1⟩, ⟨"IsYuvFormat", 0, 5⟩, ⟨"IsImageWidth", 64, 16384⟩,
  ⟨"IsImageHeight", 64, 16384⟩, ⟨"IsGridMode", 0, 1⟩, ⟨"enable", 0, 1⟩, ⟨"chroma_enabled", 0, 1⟩,
  ⟨"dither_enable", 0, 1⟩, ⟨"clip_enable", 0, 1⟩, ⟨"width", 64, 16384⟩, ⟨"height", 64, 16384⟩,
  ⟨"IsInWidth", 64, 16384⟩, ⟨"arith_width", 1, 16⟩, ⟨"stride", 1, 65536⟩, ⟨"fmt", 0, 15⟩,
  ⟨"mode", 0, 7⟩, ⟨"range", 0, 3⟩, ⟨"signed_val", -32768, 32767⟩, ⟨"unsigned_val", 0, 255⟩,
  ⟨"c00", -1024, 1024⟩, ⟨"c01", -1024, 1024⟩, ⟨"c02", -1024, 1024⟩, ⟨"c10", -1024, 1024⟩,
  ⟨"c11", -1024, 1024⟩, ⟨"c12", -1024, 1024⟩, ⟨"c20", -1024, 1024⟩, ⟨"c21", -1024, 1024⟩,
  ⟨"c22", -1024, 1024⟩, ⟨"y_offset", -1024, 1024⟩, ⟨"uv_offset", -1024, 1024⟩,
  ⟨"arith_y_offset", -1024, 1024⟩, ⟨"IsRdmaDataFormatYuv", 4, 33⟩, ⟨"IsInBittageType", 0, 3⟩,
  ⟨"yuv_isp_image_active_width", 0, 16384⟩, ⟨"yuv_isp_crop_width", 0, 16384⟩,
  ⟨"yuv_isp_image_crop_pre_x", 0, 16384⟩, ⟨"yuv_isp_scale_y", -8192, 8191⟩,
  ⟨"yuv_isp_scale_shifter_y", 0, 15⟩, ⟨"yuv_isp_org_height", 1, 16384⟩,
  ⟨"yuv_isp_image_active_height", 0, 16384⟩]

def further : List Parameter := [
  ⟨"yuv_format", 0, 2⟩, ⟨"yuv_packing", 0, 2⟩, ⟨"color_space", 0, 2⟩, ⟨"range_mode", 0, 1⟩,
  ⟨"rgb_format", 0, 2⟩, ⟨"yuv_bit_depth", 8, 12⟩, ⟨"bit_depth", 8, 12⟩, ⟨"a", -32768, 32767⟩,
  ⟨"b", -32768, 32767⟩, ⟨"c", -32768, 32767⟩, ⟨"d", -32768, 32767⟩, ⟨"x", -32768, 32767⟩,
  ⟨"y", -32768, 32767⟩, ⟨"z", -32768, 32767⟩, ⟨"w", -32768, 32767⟩, ⟨"ip_post_frame_gap", 0, 1000⟩,
  ⟨"packet_size", 64, 4096⟩, ⟨"delay_cycles", 0, 100000⟩, ⟨"IsSrcCompType", 0, 3⟩,
  ⟨"yuv_rdmaY_img_stride_1p", 1, 65536⟩, ⟨"yuv_rdmaY_sbwc_lossy_comp_mode", 0, 1⟩,
  ⟨"yuv_rdmaY_comp_64B_align", 0, 1⟩, ⟨"yuv_isp_out_scale_x", 0, 16384⟩]

def alignment : Parameter := ⟨"yuv_rdmaY_comp_64B_align", 0, 1⟩

def converter : Item where
  ip := "isp_yuv2rgb"
  parameters := shared ++ further
  constraints := [
    ("IsBypassMode", [
      "       ",
      "       IsBypassMode inside \x7b0, 1\x7d;",
      "                   "]),
    ("IsYuvFormat", [
      "       ",
      "       IsYuvFormat inside \x7b0,1,2,3,4,5\x7d;",
      "                   "]),
    ("stride", [
      "       ",
      "       stride % 16 == 0;",
      "               ",
      "       ",
      "       if (yuv_rdmaY_comp_64B_align)",
      "       stride % 64 == 0;",
      "               "]),
    ("IsRdmaDataFormatYuv", [
      "       ",
      "       IsRdmaDataFormatYuv inside \x7b4,5,7,8,16,17,20,21,32,33\x7d;",
      "               ",
      "       ",
      "       if (IsRdmaDataFormatYuv inside \x7b4,5,7,8\x7d)",
      "       IsInBittageType == 0;",
      "       else if (IsRdmaDataFormatYuv inside \x7b16,17,32,33\x7d)",
      "       IsInBittageType == 1;",
      "       else",
      "       IsInBittageType == 3;",
      "               "]),
    ("yuv_isp_image_active_width", [
      "       ",
      "       yuv_isp_image_active_width <= width;",
      "               "]),
    ("yuv_isp_crop_width", [
      "       ",
      "       yuv_isp_crop_width <= yuv_isp_image_active_width;",
      "               "]),
    ("yuv_isp_image_crop_pre_x", [
      "       ",
      "       yuv_isp_image_crop_pre_x + yuv_isp_crop_width <= width;",
      "               "]),
    ("yuv_isp_image_active_height", [
      "       ",
      "       yuv_isp_image_active_height <= yuv_isp_org_height;",
      "               "]),
    ("yuv_format", ["       yuv_format inside \x7b0,1,2\x7d;"]),
    ("yuv_packing", ["       yuv_packing inside \x7b0,1,2\x7d;"]),
    ("color_space", ["       color_space inside \x7b0,1,2\x7d;"]),
    ("range_mode", ["       range_mode inside \x7b0,1\x7d;"]),
    ("rgb_format", ["       rgb_format inside \x7b0,1,2\x7d;"]),
    ("yuv_bit_depth", ["       yuv_bit_depth inside \x7b8,10,12\x7d;"]),
    ("bit_depth", ["       bit_depth inside \x7b8,10,12\x7d;"]),
    ("yuv_rdmaY_img_stride_1p", ["       yuv_rdmaY_img_stride_1p % 16 == 0;"]),
    ("yuv_rdmaY_sbwc_lossy_comp_mode",
      ["       yuv_rdmaY_sbwc_lossy_comp_mode inside \x7b0,1\x7d;"]),
    ("yuv_rdmaY_comp_64B_align", ["       yuv_rdmaY_comp_64B_align inside \x7b0,1\x7d;"])]

def reduced : Item where
  ip := "isp_yuv2rgb"
  parameters := shared ++ [alignment]
  constraints := [
    ("IsBypassMode", ["       IsBypassMode inside \x7b0, 1\x7d;"]),
    ("IsYuvFormat", ["       IsYuvFormat inside \x7b0,1,2,3,4,5\x7d;"]),
    ("stride", [
      "       stride % 16 == 0;",
      "       if (yuv_rdmaY_comp_64B_align)",
      "                       stride % 64 == 0;"]),
    ("IsRdmaDataFormatYuv", [
      "       IsRdmaDataFormatYuv inside \x7b4,5,7,8,16,17,20,21,32,33\x7d;",
      "       if (IsRdmaDataFormatYuv inside \x7b4,5,7,8\x7d)",
      "       IsInBittageType == 0;",
      "       else if (IsRdmaDataFormatYuv inside \x7b16,17,32,33\x7d)",
      "       IsInBittageType == 1;",
      "       else",
      "                       IsInBittageType == 3;"]),
    ("yuv_isp_image_active_width", ["       yuv_isp_image_active_width <= width;"]),
    ("yuv_isp_crop_width", ["       yuv_isp_crop_width <= yuv_isp_image_active_width;"]),
    ("yuv_isp_image_crop_pre_x",
      ["       yuv_isp_image_crop_pre_x + yuv_isp_crop_width <= width;"]),
    ("yuv_isp_image_active_height", ["       yuv_isp_image_active_height <= yuv_isp_org_height;"]),
    ("yuv_rdmaY_comp_64B_align", ["       yuv_rdmaY_comp_64B_align inside \x7b0,1\x7d;"])]

/-!
## Sample sources
-/

def smallClass (name fields constraint : String) : String :=
  Text.unlines [s!"class {name};", s!"  rand {fields};", "  constraint c1 \x7b",
    s!"    {constraint};", "  \x7d", "endclass"]

def logicalClasses : List String := [
  smallClass "test_and_nested" "bit a, b, c, d" "a == (b && c && d)",
  smallClass "test_or_nested" "bit a, b, c, d" "a == (b || c || d)",
  smallClass "test_mixed" "bit a, b, c, d" "a == ((b && c) || d)",
  smallClass "test_not_equal" "bit [3:0] a, b" "!(a == b)",
  smallClass "test_not_rel" "bit [3:0] a, b" "!(a > b)",
  smallClass "test_not_var" "bit a" "!a"]

def copies (marks : List String) : String :=
  Text.join "\n" (marks.map fun mark =>
    Text.replace "isp_yuv2rgb_rand_item" s!"isp_yuv2rgb_rand_item{mark}" converter.source)

def exampleText : String :=
  Text.join "\n" (reduced.source :: logicalClasses)

/-- A source with a name. -/
structure Source where
  name : String
  text : String
  /-- The example of use goes on after a class for which there are no values. -/
  guarded : Bool := false
deriving DecidableEq, Repr

def sources : List Source := [
  { name := "isp_yuv2rgb", text := converter.source },
  { name := "example_sv_classes", text := exampleText, guarded := true },
  { name := "inp", text := copies ["_0", "_1", "_2", "_3"] }]

end Stimulus.Samples
