import Stimulus.Text.Table

/-!
# Case tables

The case properties and simple case mappings past the first 128 code points. `Stimulus.Text.Case`
holds the operations.
-/

namespace Stimulus.Text

def upperRuns : Array (Nat × Nat × Nat) := runsOf [
  192,22,1,2,6,1,34,54,2,3,14,2,3,46,2,1,4,2,4,1,1,2,2,2,1,2,2,1,1,1,3,3,1,2,1,1,2,2,1,4,1,1,2,1,1,
  2,4,2,1,2,2,3,2,2,1,2,2,1,1,1,2,2,2,1,0,1,4,0,1,8,0,1,3,0,1,3,0,1,3,14,2,3,16,2,3,0,1,3,2,2,1,1,1,
  2,56,2,8,1,1,2,1,1,3,2,2,1,2,1,2,6,2,290,2,2,4,0,1,9,0,1,7,2,2,1,1,1,2,2,2,1,2,2,1,15,1,2,8,1,36,
  0,1,3,2,1,4,22,2,6,0,1,3,2,2,1,0,1,3,50,1,49,32,2,10,54,2,1,12,2,3,94,2,3,37,1,2890,37,1,2,0,1,6,
  0,1,723,85,1,2203,42,1,3,2,1,321,148,2,10,96,2,10,7,1,9,5,1,11,7,1,9,7,1,9,5,1,12,6,2,9,7,1,73,3,
  1,13,3,1,13,3,1,13,4,1,12,3,1,263,0,1,5,0,1,4,2,1,3,2,1,3,0,1,4,4,1,7,6,2,1,2,1,3,3,1,11,1,1,6,0,
  1,27,15,1,20,0,1,819,25,1,1841,47,1,49,2,2,1,1,1,3,6,2,1,2,1,2,0,1,3,0,1,9,2,1,2,96,2,9,2,2,5,0,1,
  31054,44,2,20,26,2,136,12,2,4,60,2,11,4,2,1,8,2,5,2,2,3,2,2,4,20,2,1,3,1,2,4,1,2,14,2,1,2,1,2,0,1,
  7,0,1,6,2,2,29,0,1,22316,25,1,1222,39,1,137,35,1,157,10,1,2,14,1,2,6,1,2,1,1,1771,50,1,3054,31,1,
  21889,31,1,26017,25,1,27,25,1,27,25,1,27,2,2,1,0,1,3,0,1,3,1,1,3,3,1,2,7,1,27,25,1,27,1,1,2,3,1,3,
  7,1,2,6,1,28,1,1,2,3,1,2,4,1,2,0,1,4,6,1,28,25,1,27,25,1,27,25,1,27,25,1,27,25,1,27,25,1,31,24,1,
  34,24,1,34,24,1,34,24,1,34,24,1,34,0,1,4406,33,1,2063,25,1,7,25,1,7,25,1
  ]

def lowerRuns : Array (Nat × Nat × Nat) := runsOf [
  170,0,1,11,0,1,5,0,1,37,23,1,2,7,1,2,54,2,1,16,2,1,46,2,3,4,2,1,1,1,3,2,2,3,0,1,4,1,1,5,0,1,3,0,1,
  4,2,1,3,0,1,3,4,2,3,2,2,1,2,2,3,0,1,4,2,2,3,1,1,3,2,1,7,0,1,3,0,1,3,16,2,1,18,2,1,0,1,3,2,2,4,58,
  2,1,5,1,3,0,1,3,1,1,2,0,1,5,8,2,1,67,1,2,35,1,8,1,1,31,4,1,97,0,1,44,2,2,4,0,1,3,3,1,19,0,1,28,34,
  1,2,1,1,4,2,1,2,22,2,1,3,1,2,0,1,3,0,1,3,1,1,52,47,1,2,32,2,10,52,2,3,12,2,1,96,2,49,40,1,2888,42,
  1,3,2,1,761,5,1,2179,8,1,120,191,1,66,148,2,1,7,1,2,96,2,1,7,1,9,5,1,11,7,1,9,7,1,9,5,1,11,7,1,9,
  7,1,9,13,1,3,7,1,9,7,1,9,7,1,9,4,1,2,1,1,7,0,1,4,2,1,2,1,1,9,3,1,3,1,1,9,7,1,11,2,1,2,1,1,122,0,1,
  14,0,1,17,12,1,110,0,1,4,1,1,4,0,1,28,0,1,5,0,1,5,0,1,3,1,1,9,3,1,5,0,1,34,15,1,5,0,1,844,25,1,
  1863,47,1,2,0,1,4,1,1,2,4,2,5,2,2,1,2,2,1,6,1,4,98,2,1,0,1,8,2,2,5,0,1,13,37,1,2,0,1,6,0,1,30996,
  44,2,20,26,2,1,1,1,134,12,2,1,1,1,2,60,2,1,8,1,2,2,2,3,8,2,5,2,2,3,2,2,1,1,1,2,18,2,6,0,1,6,14,2,
  5,2,2,7,8,2,29,2,2,1,1,1,822,42,1,2,12,1,8,79,1,20289,6,1,13,4,1,1066,25,1,1230,39,1,137,35,1,156,
  10,1,2,14,1,2,6,1,2,1,1,452,0,1,3,2,1,2,41,1,2,8,1,1286,50,1,3022,31,1,21889,31,1,26011,25,1,27,6,
  1,2,17,1,27,25,1,27,3,1,2,2,2,1,5,1,2,10,1,27,25,1,27,25,1,27,25,1,27,25,1,27,25,1,27,25,1,27,25,
  1,27,25,1,27,27,1,29,24,1,2,5,1,27,24,1,2,5,1,27,24,1,2,5,1,27,24,1,2,5,1,27,24,1,2,5,1,2,0,1,
  1845,9,1,2,19,1,2564,33,1
  ]

def titleSpans : Array (Nat × Nat) := spansOf [
  453,0,3,0,3,0,39,0,7574,7,9,7,9,7,13,0,16,0,48,0
  ]

def toLowerRuns : Array (Nat × Nat × Nat × Int) := shiftsOf [
  192,22,1,32,2,6,1,32,34,46,2,1,4,4,2,1,3,14,2,1,3,44,2,1,2,0,1,-121,1,4,2,1,4,0,1,210,1,2,2,1,2,0,
  1,206,1,0,1,1,2,1,1,205,1,0,1,1,3,0,1,79,1,0,1,202,1,0,1,203,1,0,1,1,2,0,1,205,1,0,1,207,2,0,1,
  211,1,0,1,209,1,0,1,1,4,0,1,211,1,0,1,213,2,0,1,214,1,4,2,1,2,0,1,218,1,0,1,1,2,0,1,218,3,0,1,1,2,
  0,1,218,1,0,1,1,2,1,1,217,1,2,2,1,2,0,1,219,1,0,1,1,4,0,1,1,8,0,1,2,1,0,1,1,2,0,1,2,1,0,1,1,2,0,1,
  2,1,16,2,1,3,16,2,1,3,0,1,2,1,2,2,1,2,0,1,-97,1,0,1,-56,1,38,2,1,2,0,1,-130,2,16,2,1,8,0,1,10795,
  1,0,1,1,2,0,1,-163,1,0,1,10792,3,0,1,1,2,0,1,-195,1,0,1,69,1,0,1,71,1,8,2,1,290,2,2,1,4,0,1,1,9,0,
  1,116,7,0,1,38,2,2,1,37,2,0,1,64,2,1,1,63,2,16,1,32,2,8,1,32,36,0,1,8,9,22,2,1,6,0,1,-60,3,0,1,1,
  2,0,1,-7,1,0,1,1,3,2,1,-130,1,15,1,80,1,31,1,32,49,32,2,1,10,52,2,1,2,0,1,15,1,12,2,1,3,94,2,1,3,
  37,1,48,2890,37,1,7264,2,0,1,7264,6,0,1,7264,723,79,1,38864,1,5,1,8,2203,42,1,-3008,3,2,1,-3008,
  321,148,2,1,10,0,1,-7615,2,94,2,1,10,7,1,-8,9,5,1,-8,11,7,1,-8,9,7,1,-8,9,5,1,-8,12,6,2,-8,9,7,1,
  -8,25,7,1,-8,9,7,1,-8,9,7,1,-8,9,1,1,-8,1,1,1,-74,1,0,1,-9,12,3,1,-86,1,0,1,-9,12,1,1,-8,1,1,1,
  -100,13,1,1,-8,1,1,1,-112,1,0,1,-7,12,1,1,-128,1,1,1,-126,1,0,1,-9,298,0,1,-7517,4,0,1,-8383,1,0,
  1,-8262,7,0,1,28,46,15,1,16,20,0,1,1,819,25,1,26,1841,47,1,48,49,0,1,1,2,0,1,-10743,1,0,1,-3814,1,
  0,1,-10727,3,4,2,1,2,0,1,-10780,1,0,1,-10749,1,0,1,-10783,1,0,1,-10782,2,0,1,1,3,0,1,1,9,1,1,
  -10815,1,98,2,1,9,2,2,1,5,0,1,1,31054,44,2,1,20,26,2,1,136,12,2,1,4,60,2,1,11,2,2,1,2,0,1,-35332,
  1,8,2,1,5,0,1,1,2,0,1,-42280,3,2,2,1,4,18,2,1,2,0,1,-42308,1,0,1,-42319,1,0,1,-42315,1,0,1,-42305,
  1,0,1,-42308,2,0,1,-42258,1,0,1,-42282,1,0,1,-42261,1,0,1,928,1,14,2,1,2,0,1,-48,1,0,1,-42307,1,0,
  1,-35384,1,2,2,1,7,0,1,1,6,2,2,1,29,0,1,1,22316,25,1,32,1222,39,1,40,137,35,1,40,157,10,1,39,2,14,
  1,39,2,6,1,39,2,1,1,39,1771,50,1,64,3054,31,1,32,21889,31,1,32,31393,33,1,34
  ]

def toTitleRuns : Array (Nat × Nat × Nat × Int) := shiftsOf [
  181,0,1,743,43,22,1,-32,2,6,1,-32,1,0,1,121,2,46,2,-1,2,0,1,-232,2,4,2,-1,3,14,2,-1,3,44,2,-1,3,4,
  2,-1,1,0,1,-300,1,0,1,195,3,2,2,-1,3,0,1,-1,4,0,1,-1,6,0,1,-1,3,0,1,97,4,0,1,-1,1,0,1,163,4,0,1,
  130,3,4,2,-1,3,0,1,-1,5,0,1,-1,3,0,1,-1,4,2,2,-1,3,0,1,-1,4,0,1,-1,2,0,1,56,5,0,1,1,2,0,1,-1,1,0,
  1,1,2,0,1,-1,1,0,1,1,2,16,2,-1,1,0,1,-79,2,16,2,-1,2,0,1,1,2,2,2,-1,4,38,2,-1,4,16,2,-1,9,0,1,-1,
  3,1,1,10815,2,0,1,-1,5,8,2,-1,1,0,1,10783,1,0,1,10780,1,0,1,10782,1,0,1,-210,1,0,1,-206,2,1,1,
  -205,2,0,1,-202,2,0,1,-203,1,0,1,42319,4,0,1,-205,1,0,1,42315,2,0,1,-207,2,0,1,42280,1,0,1,42308,
  2,0,1,-209,1,0,1,-211,1,0,1,42308,1,0,1,10743,1,0,1,42305,3,0,1,-211,2,0,1,10749,1,0,1,-213,3,0,1,
  -214,8,0,1,10727,3,0,1,-218,2,0,1,42307,1,0,1,-218,4,0,1,42282,1,0,1,-218,1,0,1,-69,1,1,1,-217,1,
  0,1,-71,6,0,1,-219,11,0,1,42261,1,0,1,42258,167,0,1,84,44,2,2,-1,4,0,1,-1,4,2,1,130,47,0,1,-38,1,
  2,1,-37,2,16,1,-32,1,0,1,-31,1,8,1,-32,1,0,1,-64,1,1,1,-63,2,0,1,-62,1,0,1,-57,4,0,1,-47,1,0,1,
  -54,1,0,1,-8,2,22,2,-1,1,0,1,-86,1,0,1,-80,1,0,1,7,1,0,1,-116,2,0,1,-96,3,0,1,-1,3,0,1,-1,53,31,1,
  -32,1,15,1,-80,2,32,2,-1,10,52,2,-1,3,12,2,-1,1,0,1,-15,2,94,2,-1,50,37,1,-48,3698,5,1,-8,2179,0,
  1,-6254,1,0,1,-6253,1,0,1,-6244,1,1,1,-6242,1,0,1,-6243,1,0,1,-6236,1,0,1,-6181,1,0,1,35266,241,0,
  1,35332,4,0,1,3814,17,0,1,35384,115,148,2,-1,6,0,1,-59,6,94,2,-1,1,7,1,8,9,5,1,8,11,7,1,8,9,7,1,8,
  9,5,1,8,12,6,2,8,9,7,1,8,9,1,1,74,1,3,1,86,1,1,1,100,1,1,1,128,1,1,1,112,1,1,1,126,3,7,1,8,9,7,1,
  8,9,7,1,8,9,1,1,8,2,0,1,9,11,0,1,-7205,5,0,1,9,13,1,1,8,15,1,1,8,4,0,1,7,14,0,1,9,347,0,1,-28,34,
  15,1,-16,5,0,1,-1,844,25,1,-26,1863,47,1,-48,2,0,1,-1,4,0,1,-10795,1,0,1,-10792,2,4,2,-1,7,0,1,-1,
  3,0,1,-1,11,98,2,-1,9,2,2,-1,5,0,1,-1,13,37,1,-7264,2,0,1,-7264,6,0,1,-7264,30996,44,2,-1,20,26,2,
  -1,136,12,2,-1,4,60,2,-1,11,2,2,-1,3,8,2,-1,5,0,1,-1,5,2,2,-1,1,0,1,48,3,18,2,-1,12,14,2,-1,5,2,2,
  -1,7,0,1,-1,6,2,2,-1,29,0,1,-1,861,0,1,-928,29,79,1,-38864,21378,25,1,-32,1230,39,1,-40,137,35,1,
  -40,156,10,1,-39,2,14,1,-39,2,6,1,-39,2,1,1,-39,1796,50,1,-64,3022,31,1,-32,21889,31,1,-32,31395,
  33,1,-34
  ]

def toTitleTexts : Array (Nat × String) := #[
  (0xDF, "\u0053\u0073"), (0x149, "\u02bc\u004e"), (0x1F0, "\u004a\u030c"),
  (0x390, "\u0399\u0308\u0301"), (0x3B0, "\u03a5\u0308\u0301"), (0x587, "\u0535\u0582"),
  (0x1E96, "\u0048\u0331"), (0x1E97, "\u0054\u0308"), (0x1E98, "\u0057\u030a"),
  (0x1E99, "\u0059\u030a"), (0x1E9A, "\u0041\u02be"), (0x1F50, "\u03a5\u0313"),
  (0x1F52, "\u03a5\u0313\u0300"), (0x1F54, "\u03a5\u0313\u0301"), (0x1F56, "\u03a5\u0313\u0342"),
  (0x1FB2, "\u1fba\u0345"), (0x1FB4, "\u0386\u0345"), (0x1FB6, "\u0391\u0342"),
  (0x1FB7, "\u0391\u0342\u0345"), (0x1FC2, "\u1fca\u0345"), (0x1FC4, "\u0389\u0345"),
  (0x1FC6, "\u0397\u0342"), (0x1FC7, "\u0397\u0342\u0345"), (0x1FD2, "\u0399\u0308\u0300"),
  (0x1FD3, "\u0399\u0308\u0301"), (0x1FD6, "\u0399\u0342"), (0x1FD7, "\u0399\u0308\u0342"),
  (0x1FE2, "\u03a5\u0308\u0300"), (0x1FE3, "\u03a5\u0308\u0301"), (0x1FE4, "\u03a1\u0313"),
  (0x1FE6, "\u03a5\u0342"), (0x1FE7, "\u03a5\u0308\u0342"), (0x1FF2, "\u1ffa\u0345"),
  (0x1FF4, "\u038f\u0345"), (0x1FF6, "\u03a9\u0342"), (0x1FF7, "\u03a9\u0342\u0345"),
  (0xFB00, "\u0046\u0066"), (0xFB01, "\u0046\u0069"), (0xFB02, "\u0046\u006c"),
  (0xFB03, "\u0046\u0066\u0069"), (0xFB04, "\u0046\u0066\u006c"), (0xFB05, "\u0053\u0074"),
  (0xFB06, "\u0053\u0074"), (0xFB13, "\u0544\u0576"), (0xFB14, "\u0544\u0565"),
  (0xFB15, "\u0544\u056b"), (0xFB16, "\u054e\u0576"), (0xFB17, "\u0544\u056d")
  ]

def caseIgnorableSpans : Array (Nat × Nat) := spansOf [
  168,0,5,0,2,0,5,0,3,1,504,191,5,1,5,0,10,1,2,0,252,6,208,0,6,0,50,44,2,0,2,1,2,1,2,0,45,0,12,5,11,
  10,2,0,36,0,11,20,17,0,102,7,2,9,2,3,34,0,2,0,31,26,92,10,59,10,5,0,3,0,25,23,44,2,45,0,8,1,7,7,
  42,57,56,0,2,0,5,7,5,0,4,6,11,1,14,0,16,0,59,0,5,3,9,0,21,1,27,0,3,1,58,0,5,1,5,1,3,2,4,0,31,1,4,
  0,12,1,58,0,5,4,2,1,5,0,21,1,23,5,2,0,59,0,3,0,2,3,9,0,8,1,12,1,31,0,62,0,13,0,51,0,4,0,56,0,2,2,
  6,2,2,3,8,1,12,1,30,0,59,0,3,0,7,0,6,1,21,1,29,1,58,1,5,3,9,0,21,1,30,0,73,0,8,2,2,0,91,0,3,6,12,
  8,99,0,3,8,10,0,2,5,75,1,28,0,2,0,2,0,56,13,2,4,2,1,6,10,2,35,10,0,103,3,2,5,2,1,3,1,26,1,5,2,17,
  3,14,0,3,1,7,0,16,0,95,0,609,2,947,2,30,1,31,1,31,1,65,1,2,6,9,0,3,10,4,0,6,0,46,4,52,0,66,1,35,0,
  119,2,5,1,10,0,7,2,220,1,3,0,59,0,2,6,2,0,2,0,3,7,7,9,3,0,40,0,9,30,50,3,49,0,2,4,2,0,6,0,41,8,13,
  1,33,3,3,1,2,2,57,0,2,1,4,0,2,2,59,7,3,1,65,5,83,2,2,12,2,6,5,0,7,0,4,1,51,62,14,0,35,100,446,0,2,
  2,12,2,14,2,14,2,14,1,13,4,9,1,11,0,3,0,3,4,50,4,2,9,2,0,14,0,17,12,52,32,2956,1,114,2,126,0,16,0,
  97,31,48,0,470,0,37,3,4,4,6,0,94,5,94,2,28439,0,1251,5,271,0,99,3,2,9,2,0,29,3,81,1,15,33,79,0,24,
  2,104,2,4,1,9,0,4,0,5,0,26,1,6,0,152,1,27,17,14,0,39,7,26,10,47,2,49,0,3,3,3,1,18,0,22,1,67,5,3,1,
  3,1,13,0,9,0,36,0,12,0,52,0,2,2,3,1,6,1,2,0,28,0,15,1,6,1,2,0,101,4,10,2,122,0,3,0,5,0,20273,0,
  148,16,574,15,4,0,13,15,35,0,3,0,170,0,8,0,7,0,12,0,36,0,2,0,48,0,46,1,68,0,22,2,514,0,227,0,150,
  4,1030,5,2,41,2,8,583,2,2,1,6,3,41,2,5,0,166,1,574,3,388,1,154,10,50,3,124,0,55,14,42,0,3,1,11,2,
  50,3,3,1,3,0,5,0,11,0,51,2,37,4,2,7,63,0,13,1,53,8,11,3,3,0,96,2,3,0,2,1,7,0,161,0,4,7,22,1,58,1,
  4,0,38,6,4,4,196,7,3,2,2,0,24,0,85,5,2,0,5,1,2,1,239,3,7,1,2,1,28,1,86,7,3,0,2,1,107,0,2,0,3,5,2,
  0,102,2,3,3,2,4,260,8,2,1,257,1,2,0,5,0,145,3,3,1,5,0,33,9,41,5,3,3,9,0,10,5,3,2,47,12,2,1,407,6,
  2,5,2,0,83,21,3,6,2,1,2,1,123,5,4,0,2,1,2,6,2,0,73,1,4,0,2,0,348,1,5436,8,14008,4,60,6,10,3,1036,
  0,64,16,65,1,2,1,16396,3,2,6,2,1,3231,1,2,3,4701,45,3,22,545,2,10,15,3,6,31,3,149,2,1980,54,5,49,
  9,0,15,0,23,4,2,14,1361,6,2,16,3,6,2,1,2,4,262,13,369,0,62,3,1505,6,110,7,2736,4,789506,0,31,95,
  129,239
  ]

end Stimulus.Text
