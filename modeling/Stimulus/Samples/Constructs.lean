import Stimulus.Text.Basic

/-!
# One of each construct
-/

namespace Stimulus.Samples

def enumLines : List String := [
  "typedef enum bit [1:0] \x7bRED=0, GREEN=1, BLUE=2\x7d color_e;",
  "typedef enum \x7bALPHA, BETA, GAMMA\x7d greek_t;",
  "",
  "class base_item;",
  "  rand int base_f;",
  "endclass",
  ""]

def fieldLines : List String := [
  "class rich_item extends base_item;",
  "  rand  bit [7:0]   addr;",
  "  randc bit [3:0]   tag;",
  "  rand  int         delta;",
  "  rand  int unsigned usz;",
  "  rand  byte        b8;",
  "  rand  shortint    s16;",
  "  rand  longint     l64;",
  "  rand  integer     i32;",
  "  rand  color_e     col;",
  "  rand  bit [7:0]   arr [4];",
  "  rand  bit [7:0]   darr [];",
  "  rand  logic [15:0] lg;",
  "  rand  bit signed [9:0] sg;",
  "  rand  bit         flg;",
  "  rand  bit [3:0]   mode;",
  ""]

def hookLines : List String := [
  "  function void pre_randomize();",
  "    addr = 0;",
  "  endfunction",
  "",
  "  function void post_randomize();",
  "    tag = tag + 1;",
  "  endfunction",
  ""]

def plainLines : List String := [
  "  constraint c_basic \x7b",
  "    addr inside \x7b[0:255]\x7d;",
  "    tag  inside \x7b1,2,3,4,[8:10]\x7d;",
  "    delta > -5; delta < 100;",
  "    solve addr before tag;",
  "    soft delta == 7;",
  "    unique \x7baddr, tag\x7d;",
  "    col inside \x7bRED, GREEN\x7d;",
  "    arr.size() == 4;",
  "    !(addr inside \x7b13, 17\x7d);",
  "  \x7d",
  "",
  "  constraint c_dist \x7b",
  "    mode dist \x7b0 := 10, [1:3] :/ 20, 7 := 5\x7d;",
  "  \x7d",
  ""]

def logicLines : List String := [
  "  constraint c_impl \x7b",
  "    (addr > 10) -> (tag == 2);",
  "    flg -> addr inside \x7b[0:3]\x7d;",
  "    !(addr == 99);",
  "    !flg;",
  "    (flg ? addr : tag) > 0;",
  "    (addr >= 0 && addr <= 200);",
  "    addr[3:0] == 4'hA;",
  "    addr == 8'b0000_1111;",
  "    lg / 2 < 100;",
  "    (1 << 3) + 2 > 0;",
  "  \x7d",
  ""]

/-- Constraints under conditions and over the elements of a list, and the end of the class. -/
def nestedLines : List String := [
  "  constraint c_cond \x7b",
  "    if (flg) \x7b",
  "      addr inside \x7b[0:15]\x7d;",
  "    \x7d else if (mode == 3) \x7b",
  "      addr == 8'hFF;",
  "    \x7d else \x7b",
  "      addr > 0;",
  "    \x7d",
  "    if (!flg) addr > 1;",
  "    foreach (arr[i]) \x7b",
  "      arr[i] < 255;",
  "    \x7d",
  "    (addr > 0 && tag > 0) || flg;",
  "  \x7d",
  "endclass"]

/-- A source with one of each construct: enumerations, a parent class, and a class with fields of
all kinds, both hooks and constraints. -/
def constructs : String :=
  "\n" ++ Text.unlines
    (enumLines ++ fieldLines ++ hookLines ++ plainLines ++ logicLines ++ nestedLines)

end Stimulus.Samples
