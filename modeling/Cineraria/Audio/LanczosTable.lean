import Mathlib.Data.List.GetD
import Mathlib.Tactic.Common

/-!
# The Lanczos-2 coefficient table

The contents of `ip/pcm_component/os256_lanczos_table.mif`: 512 signed 18-bit words,
scaled by `2 ^ 16`. Addresses 0 to 256 fall from the centre of the kernel to its first
zero, addresses 257 to 511 are the negative lobe.
-/

namespace Cineraria.Lanczos

/-- The words of the memory initialisation file, in address order. -/
def table : List Int :=
  [65536, 65533, 65527, 65517, 65503, 65484, 65462, 65435, 65404, 65369, 65330, 65287, 65240,
  65189, 65133, 65074, 65011, 64943, 64872, 64796, 64717, 64633, 64546, 64454, 64359, 64260,
  64156, 64049, 63938, 63823, 63704, 63581, 63454, 63324, 63190, 63052, 62910, 62764, 62615,
  62462, 62305, 62145, 61981, 61813, 61642, 61467, 61288, 61106, 60921, 60732, 60540, 60344,
  60145, 59942, 59736, 59527, 59314, 59098, 58879, 58657, 58431, 58202, 57971, 57736, 57498,
  57257, 57013, 56766, 56516, 56263, 56008, 55749, 55488, 55224, 54957, 54688, 54416, 54141,
  53864, 53584, 53301, 53017, 52729, 52440, 52148, 51853, 51557, 51258, 50957, 50653, 50348,
  50040, 49731, 49419, 49106, 48790, 48473, 48153, 47832, 47510, 47185, 46859, 46531, 46201,
  45870, 45538, 45203, 44868, 44531, 44193, 43853, 43512, 43170, 42827, 42482, 42137, 41790,
  41442, 41093, 40744, 40393, 40042, 39690, 39337, 38983, 38629, 38274, 37918, 37562, 37205,
  36848, 36491, 36133, 35774, 35416, 35057, 34698, 34338, 33979, 33619, 33260, 32900, 32540,
  32181, 31821, 31462, 31103, 30744, 30385, 30027, 29669, 29311, 28954, 28597, 28241, 27885,
  27530, 27175, 26822, 26468, 26116, 25764, 25413, 25063, 24714, 24365, 24018, 23672, 23326,
  22982, 22638, 22296, 21955, 21615, 21277, 20939, 20603, 20268, 19935, 19603, 19272, 18942,
  18615, 18288, 17964, 17640, 17319, 16998, 16680, 16363, 16048, 15735, 15423, 15113, 14805,
  14499, 14195, 13892, 13592, 13293, 12996, 12701, 12409, 12118, 11829, 11542, 11258, 10975,
  10695, 10416, 10140, 9866, 9594, 9325, 9058, 8792, 8530, 8269, 8011, 7755, 7501, 7250, 7001,
  6754, 6510, 6268, 6029, 5791, 5557, 5325, 5095, 4868, 4643, 4420, 4200, 3983, 3768, 3555, 3346,
  3138, 2933, 2731, 2531, 2334, 2139, 1946, 1757, 1570, 1385, 1203, 1023, 846, 672, 500, 331,
  164, 0, -162, -321, -478, -632, -784, -933, -1079, -1223, -1364, -1503, -1640, -1774, -1905,
  -2034, -2161, -2284, -2406, -2525, -2642, -2756, -2867, -2977, -3084, -3188, -3290, -3390,
  -3487, -3582, -3675, -3765, -3853, -3939, -4022, -4103, -4182, -4259, -4333, -4405, -4475,
  -4543, -4608, -4672, -4733, -4792, -4849, -4904, -4957, -5007, -5056, -5103, -5147, -5190,
  -5231, -5269, -5306, -5341, -5374, -5405, -5434, -5462, -5487, -5511, -5533, -5553, -5571,
  -5588, -5603, -5617, -5628, -5638, -5647, -5654, -5659, -5663, -5665, -5666, -5665, -5662,
  -5659, -5654, -5647, -5639, -5630, -5619, -5607, -5594, -5580, -5564, -5547, -5529, -5510,
  -5489, -5468, -5445, -5421, -5396, -5371, -5344, -5316, -5287, -5257, -5226, -5195, -5162,
  -5129, -5095, -5060, -5024, -4987, -4950, -4912, -4873, -4834, -4793, -4753, -4711, -4669,
  -4627, -4584, -4540, -4496, -4451, -4406, -4360, -4314, -4268, -4221, -4174, -4127, -4079,
  -4031, -3982, -3933, -3884, -3835, -3786, -3736, -3686, -3637, -3586, -3536, -3486, -3436,
  -3385, -3335, -3284, -3233, -3183, -3132, -3082, -3031, -2981, -2931, -2880, -2830, -2780,
  -2730, -2681, -2631, -2582, -2533, -2484, -2435, -2387, -2338, -2291, -2243, -2196, -2148,
  -2102, -2055, -2009, -1963, -1918, -1873, -1828, -1784, -1740, -1697, -1654, -1611, -1569,
  -1528, -1486, -1446, -1405, -1365, -1326, -1287, -1249, -1211, -1174, -1137, -1101, -1065,
  -1030, -996, -961, -928, -895, -863, -831, -800, -769, -739, -710, -681, -652, -625, -598,
  -571, -545, -520, -495, -471, -448, -425, -403, -381, -360, -340, -320, -301, -283, -265, -247,
  -231, -214, -199, -184, -170, -156, -143, -131, -119, -107, -97, -87, -77, -68, -60, -52, -45,
  -38, -32, -26, -21, -17, -13, -10, -7, -5, -3, -2, -1]

/-- The word at an address. -/
def coefficient (address : Nat) : Int := table.getD address 0

set_option maxRecDepth 8000 in
/-- Every word is a fraction of the centre value. -/
theorem table_bounds : ∀ k ∈ table, -65536 < k ∧ k ≤ 65536 := by decide

theorem coefficient_bounds (address : Nat) :
    -65536 < coefficient address ∧ coefficient address ≤ 65536 := by
  unfold coefficient
  by_cases within : address < table.length
  · rw [List.getD_eq_getElem _ _ within]
    exact table_bounds _ (List.getElem_mem within)
  · rw [List.getD_eq_default _ _ (by omega)]
    decide

/-- The centre of the kernel. -/
theorem coefficient_zero : coefficient 0 = 65536 := rfl

set_option maxRecDepth 8000 in
/-- The first zero of the kernel, one sample away from the centre. -/
theorem coefficient_256 : coefficient 256 = 0 := rfl

end Cineraria.Lanczos
