import CodeIndex.Text.CodePoints
import CodeIndex.Text.Lowercase

/-!
Terms: what the full-text index is made of.

A term is a maximal run of letters and numbers, compared without case and without the accents of
Latin letters. A combining accent continues a term and leaves no trace in it; it starts none.

* `termSpans` are the terms of a text with the stretches of characters they came from;
* `foldChar` is what a character leaves in its term.
-/
namespace CodeIndex.Text

/-- The code points past ASCII that stand in terms: the letters, the numbers, the private characters
and those that Unicode 6.1 leaves unassigned. -/
def termCodePoints : CodePoints := ⟨#[
  170, 171, 178, 180, 181, 182, 185, 187, 188, 191, 192, 215, 216, 247, 248, 706, 710, 722, 736,
  741, 748, 749, 750, 751, 880, 885, 886, 894, 895, 900, 902, 903, 904, 1014, 1015, 1154, 1162,
  1370, 1376, 1417, 1419, 1423, 1424, 1425, 1480, 1523, 1525, 1536, 1541, 1542, 1564, 1566, 1568,
  1611, 1632, 1642, 1646, 1648, 1649, 1748, 1749, 1750, 1765, 1767, 1774, 1789, 1791, 1792, 1806,
  1807, 1808, 1809, 1810, 1840, 1867, 1958, 1969, 2027, 2036, 2038, 2042, 2070, 2074, 2075, 2084,
  2085, 2088, 2089, 2094, 2096, 2111, 2137, 2140, 2142, 2143, 2276, 2303, 2304, 2308, 2362, 2365,
  2366, 2384, 2385, 2392, 2402, 2406, 2416, 2417, 2433, 2436, 2492, 2493, 2494, 2501, 2503, 2505,
  2507, 2510, 2519, 2520, 2530, 2532, 2546, 2548, 2554, 2556, 2561, 2564, 2620, 2621, 2622, 2627,
  2631, 2633, 2635, 2638, 2641, 2642, 2672, 2674, 2677, 2678, 2689, 2692, 2748, 2749, 2750, 2758,
  2759, 2762, 2763, 2766, 2786, 2788, 2800, 2802, 2817, 2820, 2876, 2877, 2878, 2885, 2887, 2889,
  2891, 2894, 2902, 2904, 2914, 2916, 2928, 2929, 2946, 2947, 3006, 3011, 3014, 3017, 3018, 3022,
  3031, 3032, 3059, 3067, 3073, 3076, 3134, 3141, 3142, 3145, 3146, 3150, 3157, 3159, 3170, 3172,
  3199, 3200, 3202, 3204, 3260, 3261, 3262, 3269, 3270, 3273, 3274, 3278, 3285, 3287, 3298, 3300,
  3330, 3332, 3390, 3397, 3398, 3401, 3402, 3406, 3415, 3416, 3426, 3428, 3449, 3450, 3458, 3460,
  3530, 3531, 3535, 3541, 3542, 3543, 3544, 3552, 3570, 3573, 3633, 3634, 3636, 3643, 3647, 3648,
  3655, 3664, 3674, 3676, 3761, 3762, 3764, 3770, 3771, 3773, 3784, 3790, 3841, 3872, 3892, 3904,
  3953, 3976, 3981, 3992, 3993, 4029, 4030, 4045, 4046, 4059, 4139, 4159, 4170, 4176, 4182, 4186,
  4190, 4193, 4194, 4197, 4199, 4206, 4209, 4213, 4226, 4238, 4239, 4240, 4250, 4256, 4347, 4348,
  4957, 4969, 5008, 5018, 5120, 5121, 5741, 5743, 5760, 5761, 5787, 5789, 5867, 5870, 5906, 5909,
  5938, 5943, 5970, 5972, 6002, 6004, 6068, 6103, 6104, 6108, 6109, 6110, 6144, 6159, 6313, 6314,
  6432, 6444, 6448, 6460, 6464, 6465, 6468, 6470, 6576, 6593, 6600, 6602, 6622, 6656, 6679, 6684,
  6686, 6688, 6741, 6751, 6752, 6781, 6783, 6784, 6816, 6823, 6824, 6830, 6912, 6917, 6964, 6981,
  7002, 7037, 7040, 7043, 7073, 7086, 7142, 7156, 7164, 7168, 7204, 7224, 7227, 7232, 7294, 7296,
  7360, 7368, 7376, 7401, 7405, 7406, 7410, 7413, 7616, 7655, 7676, 7680, 8125, 8126, 8127, 8130,
  8141, 8144, 8157, 8160, 8173, 8176, 8189, 8191, 8192, 8293, 8298, 8304, 8314, 8319, 8330, 8335,
  8352, 8378, 8400, 8433, 8448, 8450, 8451, 8455, 8456, 8458, 8468, 8469, 8470, 8473, 8478, 8484,
  8485, 8486, 8487, 8488, 8489, 8490, 8494, 8495, 8506, 8508, 8512, 8517, 8522, 8526, 8527, 8528,
  8592, 9204, 9216, 9255, 9280, 9291, 9372, 9450, 9472, 9984, 9985, 10102, 10132, 11085, 11088,
  11098, 11493, 11499, 11503, 11506, 11513, 11517, 11518, 11520, 11632, 11633, 11647, 11648, 11744,
  11823, 11824, 11836, 11904, 11930, 11931, 12020, 12032, 12246, 12272, 12284, 12288, 12293, 12296,
  12321, 12330, 12337, 12342, 12344, 12349, 12352, 12441, 12445, 12448, 12449, 12539, 12540, 12688,
  12690, 12694, 12704, 12736, 12772, 12800, 12831, 12842, 12872, 12880, 12881, 12896, 12928, 12938,
  12977, 12992, 13055, 13056, 13312, 19904, 19968, 42128, 42183, 42238, 42240, 42509, 42512, 42607,
  42623, 42655, 42656, 42736, 42744, 42752, 42775, 42784, 42786, 42889, 42891, 43010, 43011, 43014,
  43015, 43019, 43020, 43043, 43052, 43062, 43066, 43124, 43128, 43136, 43138, 43188, 43205, 43214,
  43216, 43232, 43250, 43256, 43259, 43302, 43312, 43335, 43348, 43359, 43360, 43392, 43396, 43443,
  43470, 43486, 43488, 43561, 43575, 43587, 43588, 43596, 43598, 43612, 43616, 43639, 43642, 43643,
  43644, 43696, 43697, 43698, 43701, 43703, 43705, 43710, 43712, 43713, 43714, 43742, 43744, 43755,
  43762, 43765, 43767, 44003, 44014, 64286, 64287, 64297, 64298, 64434, 64450, 64830, 64832, 65020,
  65022, 65024, 65050, 65056, 65063, 65072, 65107, 65108, 65127, 65128, 65132, 65279, 65280, 65281,
  65296, 65306, 65313, 65339, 65345, 65371, 65382, 65504, 65511, 65512, 65519, 65529, 65536, 65792,
  65795, 65847, 65856, 65913, 65930, 65936, 65948, 66000, 66046, 66463, 66464, 66512, 66513, 67671,
  67672, 67871, 67872, 67903, 67904, 68097, 68100, 68101, 68103, 68108, 68112, 68152, 68155, 68159,
  68160, 68176, 68185, 68223, 68224, 68409, 68416, 69632, 69635, 69688, 69710, 69760, 69763, 69808,
  69826, 69888, 69891, 69927, 69941, 69952, 69956, 70016, 70019, 70067, 70081, 70085, 70089, 71339,
  71352, 74864, 74868, 94033, 94079, 94095, 94099, 118784, 119030, 119040, 119079, 119081, 119262,
  119296, 119366, 119552, 119639, 120513, 120514, 120539, 120540, 120571, 120572, 120597, 120598,
  120629, 120630, 120655, 120656, 120687, 120688, 120713, 120714, 120745, 120746, 120771, 120772,
  126704, 126706, 126976, 127020, 127024, 127124, 127136, 127151, 127153, 127167, 127169, 127184,
  127185, 127200, 127248, 127279, 127280, 127340, 127344, 127387, 127462, 127491, 127504, 127547,
  127552, 127561, 127568, 127570, 127744, 127777, 127792, 127798, 127799, 127869, 127872, 127892,
  127904, 127941, 127942, 127947, 127968, 127985, 128000, 128063, 128064, 128065, 128066, 128248,
  128249, 128253, 128256, 128318, 128320, 128324, 128336, 128360, 128507, 128577, 128581, 128592,
  128640, 128710, 128768, 128884, 917505, 917506, 917536, 917632, 917760, 918000]⟩

/-- The code points of terms past ASCII that differ from their simple case folding. -/
def foldShifts : List Shift := [
  ⟨181, 181, 1, 775, 0⟩, ⟨192, 214, 1, 32, 0⟩, ⟨216, 222, 1, 32, 0⟩, ⟨256, 302, 2, 1, 0⟩,
  ⟨306, 310, 2, 1, 0⟩, ⟨313, 327, 2, 1, 0⟩, ⟨330, 374, 2, 1, 0⟩, ⟨376, 376, 1, 0, 121⟩,
  ⟨377, 381, 2, 1, 0⟩, ⟨383, 383, 1, 0, 268⟩, ⟨385, 385, 1, 210, 0⟩, ⟨386, 388, 2, 1, 0⟩,
  ⟨390, 390, 1, 206, 0⟩, ⟨391, 391, 1, 1, 0⟩, ⟨393, 394, 1, 205, 0⟩, ⟨395, 395, 1, 1, 0⟩,
  ⟨398, 398, 1, 79, 0⟩, ⟨399, 399, 1, 202, 0⟩, ⟨400, 400, 1, 203, 0⟩, ⟨401, 401, 1, 1, 0⟩,
  ⟨403, 403, 1, 205, 0⟩, ⟨404, 404, 1, 207, 0⟩, ⟨406, 406, 1, 211, 0⟩, ⟨407, 407, 1, 209, 0⟩,
  ⟨408, 408, 1, 1, 0⟩, ⟨412, 412, 1, 211, 0⟩, ⟨413, 413, 1, 213, 0⟩, ⟨415, 415, 1, 214, 0⟩,
  ⟨416, 420, 2, 1, 0⟩, ⟨422, 422, 1, 218, 0⟩, ⟨423, 423, 1, 1, 0⟩, ⟨425, 425, 1, 218, 0⟩,
  ⟨428, 428, 1, 1, 0⟩, ⟨430, 430, 1, 218, 0⟩, ⟨431, 431, 1, 1, 0⟩, ⟨433, 434, 1, 217, 0⟩,
  ⟨435, 437, 2, 1, 0⟩, ⟨439, 439, 1, 219, 0⟩, ⟨440, 440, 1, 1, 0⟩, ⟨444, 444, 1, 1, 0⟩,
  ⟨452, 452, 1, 2, 0⟩, ⟨453, 453, 1, 1, 0⟩, ⟨455, 455, 1, 2, 0⟩, ⟨456, 456, 1, 1, 0⟩,
  ⟨458, 458, 1, 2, 0⟩, ⟨459, 475, 2, 1, 0⟩, ⟨478, 494, 2, 1, 0⟩, ⟨497, 497, 1, 2, 0⟩,
  ⟨498, 500, 2, 1, 0⟩, ⟨502, 502, 1, 0, 97⟩, ⟨503, 503, 1, 0, 56⟩, ⟨504, 542, 2, 1, 0⟩,
  ⟨544, 544, 1, 0, 130⟩, ⟨546, 562, 2, 1, 0⟩, ⟨570, 570, 1, 10795, 0⟩, ⟨571, 571, 1, 1, 0⟩,
  ⟨573, 573, 1, 0, 163⟩, ⟨574, 574, 1, 10792, 0⟩, ⟨577, 577, 1, 1, 0⟩, ⟨579, 579, 1, 0, 195⟩,
  ⟨580, 580, 1, 69, 0⟩, ⟨581, 581, 1, 71, 0⟩, ⟨582, 590, 2, 1, 0⟩, ⟨880, 882, 2, 1, 0⟩,
  ⟨886, 886, 1, 1, 0⟩, ⟨902, 902, 1, 38, 0⟩, ⟨904, 906, 1, 37, 0⟩, ⟨908, 908, 1, 64, 0⟩,
  ⟨910, 911, 1, 63, 0⟩, ⟨913, 929, 1, 32, 0⟩, ⟨931, 939, 1, 32, 0⟩, ⟨962, 962, 1, 1, 0⟩,
  ⟨975, 975, 1, 8, 0⟩, ⟨976, 976, 1, 0, 30⟩, ⟨977, 977, 1, 0, 25⟩, ⟨981, 981, 1, 0, 15⟩,
  ⟨982, 982, 1, 0, 22⟩, ⟨984, 1006, 2, 1, 0⟩, ⟨1008, 1008, 1, 0, 54⟩, ⟨1009, 1009, 1, 0, 48⟩,
  ⟨1012, 1012, 1, 0, 60⟩, ⟨1013, 1013, 1, 0, 64⟩, ⟨1015, 1015, 1, 1, 0⟩, ⟨1017, 1017, 1, 0, 7⟩,
  ⟨1018, 1018, 1, 1, 0⟩, ⟨1021, 1023, 1, 0, 130⟩, ⟨1024, 1039, 1, 80, 0⟩, ⟨1040, 1071, 1, 32, 0⟩,
  ⟨1120, 1152, 2, 1, 0⟩, ⟨1162, 1214, 2, 1, 0⟩, ⟨1216, 1216, 1, 15, 0⟩, ⟨1217, 1229, 2, 1, 0⟩,
  ⟨1232, 1318, 2, 1, 0⟩, ⟨1329, 1366, 1, 48, 0⟩, ⟨4256, 4293, 1, 7264, 0⟩, ⟨4295, 4295, 1, 7264, 0⟩,
  ⟨4301, 4301, 1, 7264, 0⟩, ⟨7680, 7828, 2, 1, 0⟩, ⟨7835, 7835, 1, 0, 58⟩, ⟨7838, 7838, 1, 0, 7615⟩,
  ⟨7840, 7934, 2, 1, 0⟩, ⟨7944, 7951, 1, 0, 8⟩, ⟨7960, 7965, 1, 0, 8⟩, ⟨7976, 7983, 1, 0, 8⟩,
  ⟨7992, 7999, 1, 0, 8⟩, ⟨8008, 8013, 1, 0, 8⟩, ⟨8025, 8031, 2, 0, 8⟩, ⟨8040, 8047, 1, 0, 8⟩,
  ⟨8072, 8079, 1, 0, 8⟩, ⟨8088, 8095, 1, 0, 8⟩, ⟨8104, 8111, 1, 0, 8⟩, ⟨8120, 8121, 1, 0, 8⟩,
  ⟨8122, 8123, 1, 0, 74⟩, ⟨8124, 8124, 1, 0, 9⟩, ⟨8126, 8126, 1, 0, 7173⟩, ⟨8136, 8139, 1, 0, 86⟩,
  ⟨8140, 8140, 1, 0, 9⟩, ⟨8152, 8153, 1, 0, 8⟩, ⟨8154, 8155, 1, 0, 100⟩, ⟨8168, 8169, 1, 0, 8⟩,
  ⟨8170, 8171, 1, 0, 112⟩, ⟨8172, 8172, 1, 0, 7⟩, ⟨8184, 8185, 1, 0, 128⟩, ⟨8186, 8187, 1, 0, 126⟩,
  ⟨8188, 8188, 1, 0, 9⟩, ⟨8486, 8486, 1, 0, 7517⟩, ⟨8490, 8490, 1, 0, 8383⟩,
  ⟨8491, 8491, 1, 0, 8262⟩, ⟨8498, 8498, 1, 28, 0⟩, ⟨8544, 8559, 1, 16, 0⟩, ⟨8579, 8579, 1, 1, 0⟩,
  ⟨11264, 11310, 1, 48, 0⟩, ⟨11360, 11360, 1, 1, 0⟩, ⟨11362, 11362, 1, 0, 10743⟩,
  ⟨11363, 11363, 1, 0, 3814⟩, ⟨11364, 11364, 1, 0, 10727⟩, ⟨11367, 11371, 2, 1, 0⟩,
  ⟨11373, 11373, 1, 0, 10780⟩, ⟨11374, 11374, 1, 0, 10749⟩, ⟨11375, 11375, 1, 0, 10783⟩,
  ⟨11376, 11376, 1, 0, 10782⟩, ⟨11378, 11378, 1, 1, 0⟩, ⟨11381, 11381, 1, 1, 0⟩,
  ⟨11390, 11391, 1, 0, 10815⟩, ⟨11392, 11490, 2, 1, 0⟩, ⟨11499, 11501, 2, 1, 0⟩,
  ⟨11506, 11506, 1, 1, 0⟩, ⟨42560, 42604, 2, 1, 0⟩, ⟨42624, 42646, 2, 1, 0⟩,
  ⟨42786, 42798, 2, 1, 0⟩, ⟨42802, 42862, 2, 1, 0⟩, ⟨42873, 42875, 2, 1, 0⟩,
  ⟨42877, 42877, 1, 0, 35332⟩, ⟨42878, 42886, 2, 1, 0⟩, ⟨42891, 42891, 1, 1, 0⟩,
  ⟨42893, 42893, 1, 0, 42280⟩, ⟨42896, 42898, 2, 1, 0⟩, ⟨42912, 42920, 2, 1, 0⟩,
  ⟨42922, 42922, 1, 0, 42308⟩, ⟨65313, 65338, 1, 32, 0⟩, ⟨66560, 66599, 1, 40, 0⟩]

/-- The lower-case letters that are a letter of ASCII with one accent, by that letter. -/
def accented : List (Char × List Nat) := [
  ('a', [224, 225, 226, 227, 228, 229, 257, 259, 261, 462, 513, 515, 551, 7681, 7841, 7843]),
  ('b', [7683, 7685, 7687]),
  ('c', [231, 263, 265, 267, 269]),
  ('d', [271, 7691, 7693, 7695, 7697, 7699]),
  
    ('e', [232, 233, 234, 235, 275, 277, 279, 281, 283, 517, 519, 553, 7705, 7707, 7865, 7867, 7869]),
  ('f', [7711]),
  ('g', [285, 287, 289, 291, 487, 501, 7713]),
  ('h', [293, 543, 7715, 7717, 7719, 7721, 7723, 7830]),
  ('i', [236, 237, 238, 239, 297, 299, 301, 303, 304, 464, 521, 523, 7725, 7881, 7883]),
  ('j', [309, 496]),
  ('k', [311, 489, 7729, 7731, 7733]),
  ('l', [314, 316, 318, 7735, 7739, 7741]),
  ('m', [7743, 7745, 7747]),
  ('n', [241, 324, 326, 328, 505, 7749, 7751, 7753, 7755]),
  ('o', [242, 243, 244, 245, 246, 333, 335, 337, 417, 466, 491, 525, 527, 559, 7885, 7887]),
  ('p', [7765, 7767]),
  ('r', [341, 343, 345, 529, 531, 7769, 7771, 7775]),
  ('s', [347, 349, 351, 353, 537, 7777, 7779]),
  ('t', [355, 357, 539, 7787, 7789, 7791, 7793, 7831]),
  
    ('u', [249, 250, 251, 252, 361, 363, 365, 367, 369, 371, 432, 468, 533, 535, 7795, 7797, 7799, 7909, 7911]),
  ('v', [7805, 7807]),
  ('w', [373, 7809, 7811, 7813, 7815, 7817, 7832]),
  ('x', [7819, 7821]),
  ('y', [253, 255, 375, 563, 7823, 7833, 7923, 7925, 7927, 7929]),
  ('z', [378, 380, 382, 7825, 7827, 7829])]

/-- The combining accents. -/
def isCombiningAccent (c : Char) : Bool :=
  let n := c.toNat
  (768 ≤ n && n ≤ 772) || (774 ≤ n && n ≤ 780) || n == 783 || n == 785 || n == 795 ||
    (803 ≤ n && n ≤ 808) || n == 813 || n == 814 || n == 816 || n == 817

/-- Whether a character can start a term. -/
def isTermChar (c : Char) : Bool :=
  if c.toNat < 128 then c.isAlphanum else termCodePoints.contains c

/-- What a character leaves in its term: its folded form, nothing for a combining accent. -/
def foldChar (c : Char) : List Char :=
  if c.toNat < 128 then [asciiLower c]
  else if isCombiningAccent c then []
  else
    let n := shiftWith foldShifts c.toNat
    match accented.find? fun row => row.2.contains n with
    | some row => [row.1]
    | none => [Char.ofNat n]

/-- One occurrence of a term: its folded text and the characters it covers, from `start` up to but
not including `stop`. -/
structure Term where
  text : List Char
  start : Nat
  stop : Nat
deriving Repr, DecidableEq

/-- The terms of the rest of a text that starts at character `position`, when `open?` holds the
folded text, last character first, and the start of the term being read. -/
def termsFrom (open? : Option (List Char × Nat)) (position : Nat) : List Char → List Term
  | [] =>
    match open? with
    | some (text, start) => [⟨text.reverse, start, position⟩]
    | none => []
  | c :: s =>
    match open? with
    | some (text, start) =>
      if isTermChar c || isCombiningAccent c then
        termsFrom (some ((foldChar c).reverse ++ text, start)) (position + 1) s
      else ⟨text.reverse, start, position⟩ :: termsFrom none (position + 1) s
    | none =>
      if isTermChar c then termsFrom (some ((foldChar c).reverse, position)) (position + 1) s
      else termsFrom none (position + 1) s

/-- The terms of a text, in order. -/
def termSpans (s : List Char) : List Term := termsFrom none 0 s

/-- The folded texts of the terms of a text. -/
def terms (s : List Char) : List (List Char) := (termSpans s).map (·.text)

end CodeIndex.Text
