import Descramble.Unicode.Ranges

/-!
# Letters of formatted words

A formatter looks at words more simply than a parser: it goes by the letters of an early edition and
knows none beyond the first plane.

* `Unicode.isWordStart` — characters that may start a word.
* `Unicode.isWordPart` — characters that may continue it.
-/

set_option autoImplicit false

namespace Descramble.Unicode

private def wordStartBoundariesPart1 : List Nat := [
  170, 171, 181, 182, 186, 187, 192, 215, 216, 247, 248, 706, 710, 722, 736, 741, 748, 749, 750,
  751, 880, 885, 886, 888, 890, 894, 902, 903, 904, 907, 908, 909, 910, 930, 931, 1014, 1015, 1154,
  1162, 1320, 1329, 1367, 1369, 1370, 1377, 1416, 1488, 1515, 1520, 1523, 1568, 1611, 1646, 1648,
  1649, 1748, 1749, 1750, 1765, 1767, 1774, 1776, 1786, 1789, 1791, 1792, 1808, 1809, 1810, 1840,
  1869, 1958, 1969, 1970, 1994, 2027, 2036, 2038, 2042, 2043, 2048, 2070, 2074, 2075, 2084, 2085,
  2088, 2089, 2112, 2137, 2208, 2209, 2210, 2221, 2308, 2362, 2365, 2366, 2384, 2385, 2392, 2402,
  2417, 2424, 2425, 2432, 2437, 2445, 2447, 2449, 2451, 2473, 2474, 2481, 2482, 2483, 2486, 2490,
  2493, 2494, 2510, 2511, 2524, 2526, 2527, 2530, 2544, 2546, 2565, 2571, 2575, 2577, 2579, 2601,
  2602, 2609, 2610, 2612, 2613, 2615, 2616, 2618, 2649, 2653, 2654, 2655, 2674, 2677, 2693, 2702,
  2703, 2706, 2707, 2729, 2730, 2737, 2738, 2740, 2741, 2746, 2749, 2750, 2768, 2769, 2784, 2786,
  2821, 2829, 2831, 2833, 2835, 2857, 2858, 2865, 2866, 2868, 2869, 2874, 2877, 2878, 2908, 2910,
  2911, 2914, 2929, 2930, 2947, 2948, 2949, 2955, 2958, 2961, 2962, 2966, 2969, 2971, 2972, 2973,
  2974, 2976]

private def wordStartBoundariesPart2 : List Nat := [
  2979, 2981, 2984, 2987, 2990, 3002, 3024, 3025, 3077, 3085, 3086, 3089, 3090, 3113, 3114, 3124,
  3125, 3130, 3133, 3134, 3160, 3162, 3168, 3170, 3205, 3213, 3214, 3217, 3218, 3241, 3242, 3252,
  3253, 3258, 3261, 3262, 3294, 3295, 3296, 3298, 3313, 3315, 3333, 3341, 3342, 3345, 3346, 3387,
  3389, 3390, 3406, 3407, 3424, 3426, 3450, 3456, 3461, 3479, 3482, 3506, 3507, 3516, 3517, 3518,
  3520, 3527, 3585, 3633, 3634, 3636, 3648, 3655, 3713, 3715, 3716, 3717, 3719, 3721, 3722, 3723,
  3725, 3726, 3732, 3736, 3737, 3744, 3745, 3748, 3749, 3750, 3751, 3752, 3754, 3756, 3757, 3761,
  3762, 3764, 3773, 3774, 3776, 3781, 3782, 3783, 3804, 3808, 3840, 3841, 3904, 3912, 3913, 3949,
  3976, 3981, 4096, 4139, 4159, 4160, 4176, 4182, 4186, 4190, 4193, 4194, 4197, 4199, 4206, 4209,
  4213, 4226, 4238, 4239, 4256, 4294, 4295, 4296, 4301, 4302, 4304, 4347, 4348, 4681, 4682, 4686,
  4688, 4695, 4696, 4697, 4698, 4702, 4704, 4745, 4746, 4750, 4752, 4785, 4786, 4790, 4792, 4799,
  4800, 4801, 4802, 4806, 4808, 4823, 4824, 4881, 4882, 4886, 4888, 4955, 4992, 5008, 5024, 5109,
  5121, 5741, 5743, 5760, 5761, 5787, 5792, 5867, 5870, 5873, 5888, 5901, 5902, 5906, 5920, 5938,
  5952, 5970, 5984, 5997, 5998, 6001, 6016, 6068]

private def wordStartBoundariesPart3 : List Nat := [
  6103, 6104, 6108, 6109, 6176, 6264, 6272, 6313, 6314, 6315, 6320, 6390, 6400, 6429, 6480, 6510,
  6512, 6517, 6528, 6572, 6593, 6600, 6656, 6679, 6688, 6741, 6823, 6824, 6917, 6964, 6981, 6988,
  7043, 7073, 7086, 7088, 7098, 7142, 7168, 7204, 7245, 7248, 7258, 7294, 7401, 7405, 7406, 7410,
  7413, 7415, 7424, 7616, 7680, 7958, 7960, 7966, 7968, 8006, 8008, 8014, 8016, 8024, 8025, 8026,
  8027, 8028, 8029, 8030, 8031, 8062, 8064, 8117, 8118, 8125, 8126, 8127, 8130, 8133, 8134, 8141,
  8144, 8148, 8150, 8156, 8160, 8173, 8178, 8181, 8182, 8189, 8305, 8306, 8319, 8320, 8336, 8349,
  8450, 8451, 8455, 8456, 8458, 8468, 8469, 8470, 8473, 8478, 8484, 8485, 8486, 8487, 8488, 8489,
  8490, 8494, 8495, 8506, 8508, 8512, 8517, 8522, 8526, 8527, 8544, 8585, 11264, 11311, 11312,
  11359, 11360, 11493, 11499, 11503, 11506, 11508, 11520, 11558, 11559, 11560, 11565, 11566, 11568,
  11624, 11631, 11632, 11648, 11671, 11680, 11687, 11688, 11695, 11696, 11703, 11704, 11711, 11712,
  11719, 11720, 11727, 11728, 11735, 11736, 11743, 11823, 11824, 12293, 12296, 12321, 12330, 12337,
  12342, 12344, 12349, 12353, 12439, 12445, 12448, 12449, 12539, 12540, 12544, 12549, 12590, 12593,
  12687, 12704, 12731, 12784, 12800, 13312, 19894, 19968, 40909, 40960, 42125, 42192, 42238, 42240,
  42509, 42512, 42528]

private def wordStartBoundariesPart4 : List Nat := [
  42538, 42540, 42560, 42607, 42623, 42648, 42656, 42736, 42775, 42784, 42786, 42889, 42891, 42895,
  42896, 42900, 42912, 42923, 43000, 43010, 43011, 43014, 43015, 43019, 43020, 43043, 43072, 43124,
  43138, 43188, 43250, 43256, 43259, 43260, 43274, 43302, 43312, 43335, 43360, 43389, 43396, 43443,
  43471, 43472, 43520, 43561, 43584, 43587, 43588, 43596, 43616, 43639, 43642, 43643, 43648, 43696,
  43697, 43698, 43701, 43703, 43705, 43710, 43712, 43713, 43714, 43715, 43739, 43742, 43744, 43755,
  43762, 43765, 43777, 43783, 43785, 43791, 43793, 43799, 43808, 43815, 43816, 43823, 43968, 44003,
  44032, 55204, 55216, 55239, 55243, 55292, 63744, 64110, 64112, 64218, 64256, 64263, 64275, 64280,
  64285, 64286, 64287, 64297, 64298, 64311, 64312, 64317, 64318, 64319, 64320, 64322, 64323, 64325,
  64326, 64434, 64467, 64830, 64848, 64912, 64914, 64968, 65008, 65020, 65136, 65141, 65142, 65277,
  65313, 65339, 65345, 65371, 65382, 65471, 65474, 65480, 65482, 65488, 65490, 65496, 65498, 65501]

/-- The letters beyond ASCII that may start a word. -/
def wordStartBoundaries : List Nat :=
  wordStartBoundariesPart1 ++
    wordStartBoundariesPart2 ++
    wordStartBoundariesPart3 ++
    wordStartBoundariesPart4

private def wordPartBoundariesPart1 : List Nat := [
  768, 880, 1155, 1160, 1425, 1470, 1471, 1472, 1473, 1475, 1476, 1478, 1479, 1480, 1552, 1563,
  1767, 1769, 1840, 1867, 2075, 2084, 2085, 2088, 2089, 2094, 2276, 2303, 2304, 2308, 2362, 2365,
  2366, 2384, 2385, 2392, 2402, 2404, 2406, 2416, 2433, 2436, 2492, 2493, 2494, 2501, 2503, 2505,
  2519, 2520, 2561, 2564, 2620, 2621, 2622, 2627, 2631, 2633, 2635, 2638, 2641, 2642, 2662, 2674,
  2677, 2678, 2689, 2692, 2748, 2749, 2750, 2758, 2759, 2762, 2763, 2766, 2786, 2788, 2790, 2800,
  2817, 2820, 2876, 2877, 2878, 2885, 2887, 2889, 2891, 2894, 2902, 2904, 2918, 2928, 2946, 2947,
  3006, 3011, 3014, 3017, 3018, 3022, 3031, 3032, 3046, 3056, 3073, 3076, 3142, 3145, 3146, 3150,
  3157, 3159, 3170, 3172, 3174, 3184, 3202, 3204, 3260, 3261, 3262, 3269, 3270, 3273, 3274, 3278,
  3285, 3287, 3298, 3300, 3302, 3312, 3330, 3332, 3398, 3401, 3415, 3416, 3426, 3428, 3430, 3440,
  3458, 3460, 3530, 3531, 3535, 3541, 3542, 3543, 3544, 3552, 3570, 3572, 3636, 3643, 3664, 3674,
  3764, 3770, 3784, 3790, 3792, 3802, 3864, 3866, 3872, 3882, 3893, 3894, 3895, 3896, 3897, 3898,
  3953, 3973, 3974, 3976, 3981, 3992, 3993, 4029, 4038, 4039, 4160, 4170, 4199, 4206, 4209, 4213,
  4226, 4238, 4239, 4254, 4957, 4960, 6002, 6004]

private def wordPartBoundariesPart2 : List Nat := [
  6109, 6110, 6112, 6122, 6155, 6158, 6160, 6170, 6432, 6444, 6448, 6460, 6576, 6593, 6600, 6602,
  6608, 6618, 6752, 6781, 6783, 6794, 6800, 6810, 6992, 7002, 7019, 7028, 7088, 7098, 7142, 7156,
  7232, 7242, 7376, 7379, 8204, 8206, 8255, 8257, 8276, 8277, 8400, 8413, 8417, 8418, 8421, 8433,
  11744, 11776, 12441, 12443, 42612, 42622, 42655, 42656, 42736, 42738, 43014, 43015, 43019, 43020,
  43043, 43048, 43136, 43138, 43188, 43205, 43216, 43226, 43264, 43274, 43302, 43310, 43392, 43396,
  43443, 43457, 43596, 43598, 43600, 43610, 43643, 43644, 44012, 44014, 44016, 44026, 65024, 65040,
  65056, 65063, 65075, 65077, 65101, 65104, 65296, 65306, 65343, 65344]

/-- The marks, digits and connectors beyond ASCII that may only continue a word. -/
def wordPartBoundaries : List Nat :=
  wordPartBoundariesPart1 ++
    wordPartBoundariesPart2

/-- May the character start a word?  Marks of private names and of decorators belong to words. -/
def isWordStart (c : Char) : Bool :=
  if c.toNat < 128 then c.isAlpha || c == '$' || c == '_' || c == '#' || c == '@'
  else inRanges wordStartBoundaries c.toNat

/-- May the character continue a word? -/
def isWordPart (c : Char) : Bool :=
  if c.toNat < 128 then c.isAlphanum || c == '$' || c == '_'
  else inRanges wordStartBoundaries c.toNat || inRanges wordPartBoundaries c.toNat

end Descramble.Unicode
