import Mathlib.Algebra.Ring.Int.Defs
import Mathlib.Algebra.Ring.Nat
import Mathlib.Data.List.Basic

/-!
# The seek command

How `handle_connection` tells `AESDCHAR_IOCSEEKTO:X,Y` from data: `strncmp` for
the name, `sscanf` with `"%d,%d"` for the numbers, both as the C library
computes them on the bytes in memory. Neither is told where the packet ends.
-/
namespace Aesd.Server

/-- `"AESDCHAR_IOCSEEKTO:"` -/
def seekPrefix : List UInt8 :=
  [65, 69, 83, 68, 67, 72, 65, 82, 95, 73, 79, 67, 83, 69, 69, 75, 84, 79, 58]

/-- The difference of the first bytes that differ; the end of a list stands for the NUL byte. -/
def strncmp (s t : List UInt8) : Nat → Int
  | 0 => 0
  | n + 1 =>
    let a := s.headD 0
    let b := t.headD 0
    if a ≠ b then (a.toNat : Int) - b.toNat
    else if a = 0 then 0
    else strncmp s.tail t.tail n

/-- `isspace` of the C locale -/
def isSpace (b : UInt8) : Bool := b = 32 || (9 ≤ b && b ≤ 13)

def isDigit (b : UInt8) : Bool := 48 ≤ b && b ≤ 57

/-- The number a row of digits denotes. -/
def numeral (ds : List UInt8) : Nat := ds.foldl (fun n d => 10 * n + (d.toNat - 48)) 0

/-- `strtol` into a 64-bit `long`, saturating. -/
def saturate (x : Int) : Int := max (-2 ^ 63) (min x (2 ^ 63 - 1))

/-- The `int` a `long` is stored into. -/
def toInt32 (x : Int) : Int := x.bmod (2 ^ 32)

/-- The `uint32_t` an `int` is stored into. -/
def toUInt32 (x : Int) : Nat := (x % 2 ^ 32).toNat

/-- The sign before the digits and what follows it. -/
def scanSign : List UInt8 → Int × List UInt8
  | 45 :: text => (-1, text)
  | 43 :: text => (1, text)
  | text => (1, text)

/-- `%d`: white space, a sign, at least one digit. -/
def scanInt (text : List UInt8) : Option (Int × List UInt8) :=
  let (sign, text) := scanSign (text.dropWhile isSpace)
  let digits := text.takeWhile isDigit
  if digits = [] then none
  else some (toInt32 (saturate (sign * numeral digits)), text.dropWhile isDigit)

/-- `sscanf(text, "%d,%d", &x, &y) == 2` -/
def scanPair (text : List UInt8) : Option (Int × Int) :=
  match scanInt text with
  | some (x, 44 :: text) =>
    match scanInt text with
    | some (y, _) => some (x, y)
    | none => none
  | _ => none

/-- The `struct aesd_seekto` of the command in memory, if there is one. -/
def seekCommand (text : List UInt8) : Option (Nat × Nat) :=
  if strncmp text seekPrefix seekPrefix.length = 0 then
    (scanPair (text.drop seekPrefix.length)).map fun (x, y) => (toUInt32 x, toUInt32 y)
  else none

/-- The text of a seek command: two numerals behind the name, and nothing else. -/
def IsSeekText (packet : List UInt8) (x y : Nat) : Prop :=
  ∃ xs ys : List UInt8, (xs ≠ [] ∧ xs.all isDigit = true ∧ numeral xs = x) ∧
    (ys ≠ [] ∧ ys.all isDigit = true ∧ numeral ys = y) ∧
    packet = seekPrefix ++ xs ++ [44] ++ ys ++ [10]

theorem strncmp_eq_zero {s t : List UInt8} {n : Nat} (hn : n ≤ t.length) (ht : 0 ∉ t) :
    strncmp s t n = 0 ↔ s.take n = t.take n := by
  induction n generalizing s t with
  | zero => simp [strncmp]
  | succ n ih =>
    cases t with
    | nil => simp at hn
    | cons b t =>
      simp only [List.length_cons, Nat.add_le_add_iff_right] at hn
      simp only [List.mem_cons, not_or] at ht
      cases s with
      | nil =>
        simp only [strncmp, List.headD_nil, List.headD_cons, ne_eq, ht.1, not_false_eq_true, if_true,
          List.take_nil, List.take_succ_cons, reduceCtorEq, iff_false]
        have hb : b.toNat ≠ 0 := fun h => ht.1 (UInt8.toNat_inj.mp h).symm
        simp only [UInt8.toNat_zero, Int.natCast_zero]
        omega
      | cons a s =>
        by_cases hab : a = b
        · subst hab
          simp [strncmp, Ne.symm ht.1, ih hn ht.2]
        · have : (a.toNat : Int) - b.toNat ≠ 0 := by
            intro h
            exact hab (UInt8.toNat_inj.mp (by omega))
          simp [strncmp, hab, this]

/-- Memory that does not begin with the name holds data. -/
theorem seekCommand_data {text : List UInt8} (h : ¬ seekPrefix <+: text) : seekCommand text = none := by
  rw [seekCommand, if_neg]
  rw [strncmp_eq_zero (Nat.le_refl _) (by decide), List.take_length]
  intro htake
  exact h (htake ▸ List.take_prefix _ _)

/-- A packet that ends its line decides the comparison, whatever lies behind it. -/
theorem prefix_of_line {packet past : List UInt8} (h : 10 ∈ packet)
    (hp : seekPrefix <+: packet ++ past) : seekPrefix <+: packet := by
  apply List.prefix_of_prefix_length_le hp (List.prefix_append _ _)
  apply Nat.le_of_not_lt
  intro hlt
  have hsub := List.prefix_of_prefix_length_le (List.prefix_append packet past) hp (Nat.le_of_lt hlt)
  exact absurd (hsub.subset h) (by decide)

theorem takeWhile_digits {ds : List UInt8} (rest : List UInt8) {d : UInt8} (h : ds.all isDigit = true)
    (hd : isDigit d = false) : (ds ++ d :: rest).takeWhile isDigit = ds ∧
      (ds ++ d :: rest).dropWhile isDigit = d :: rest := by
  have hall : ∀ a ∈ ds, isDigit a = true := by simpa using h
  constructor
  · rw [List.takeWhile_append_of_pos hall]
    simp [hd]
  · rw [List.dropWhile_append_of_pos hall]
    simp [hd]

/-- What `%d` and the conversions leave of a numeral in a `uint32_t`. -/
def carried (n : Nat) : Nat := if n < 2 ^ 63 then n % 2 ^ 32 else 2 ^ 32 - 1

theorem toUInt32_saturate (n : Nat) : toUInt32 (toInt32 (saturate (1 * (n : Int)))) = carried n := by
  unfold carried
  split_ifs with hn
  · have hsat : saturate (1 * (n : Int)) = n := by
      unfold saturate
      omega
    have hmod : toInt32 n % 2 ^ 32 = (n % 2 ^ 32 : Nat) := by
      have hpow : (2 : Int) ^ 32 = ((2 ^ 32 : Nat) : Int) := rfl
      rw [toInt32, hpow, Int.bmod_emod]
      omega
    rw [hsat, toUInt32, hmod, Int.toNat_natCast]
  · have hsat : saturate (1 * (n : Int)) = 2 ^ 63 - 1 := by
      unfold saturate
      omega
    rw [hsat]
    decide

/-- A numeral that fits a `uint32_t` comes through unchanged. -/
theorem carried_of_lt {n : Nat} (h : n < 2 ^ 32) : carried n = n := by
  rw [carried, if_pos (by omega), Nat.mod_eq_of_lt h]

theorem isDigit_bounds {d : UInt8} (h : isDigit d = true) : 48 ≤ d.toNat ∧ d.toNat ≤ 57 := by
  simpa [isDigit, UInt8.le_iff_toNat_le] using h

theorem not_isSpace {d : UInt8} (h : isDigit d = true) : isSpace d = false := by
  have hb := isDigit_bounds h
  have h32 : d ≠ 32 := by
    rintro rfl
    simp at hb
  have h13 : ¬ d ≤ 13 := by
    rw [UInt8.le_iff_toNat_le]
    simp only [UInt8.reduceToNat]
    omega
  simp [isSpace, h32, h13]

theorem scanSign_digit {d : UInt8} {rest : List UInt8} (h : isDigit d = true) :
    scanSign (d :: rest) = (1, d :: rest) := by
  have hb := isDigit_bounds h
  unfold scanSign
  split
  · rename_i he
    cases he
    simp at hb
  · rename_i he
    cases he
    simp at hb
  · rfl

theorem scanInt_digits {ds rest : List UInt8} {d : UInt8} (hne : ds ≠ [])
    (h : ds.all isDigit = true) (hd : isDigit d = false) :
    scanInt (ds ++ d :: rest) = some (toInt32 (saturate (1 * (numeral ds : Int))), d :: rest) := by
  obtain ⟨htake, hdrop⟩ := takeWhile_digits rest h hd
  cases ds with
  | nil => exact absurd rfl hne
  | cons a as =>
    have ha : isDigit a = true := by
      simp only [List.all_cons, Bool.and_eq_true] at h
      exact h.1
    have hspace : ((a :: as) ++ d :: rest).dropWhile isSpace = (a :: as) ++ d :: rest := by
      simp [not_isSpace ha]
    have hsign : scanSign ((a :: as) ++ d :: rest) = (1, (a :: as) ++ d :: rest) := scanSign_digit ha
    simp only [scanInt, hspace, hsign, htake, hdrop, reduceCtorEq, if_false]

/-- The exact text is read as what is carried of its two numbers. -/
theorem seekCommand_carried {packet : List UInt8} {x y : Nat} (h : IsSeekText packet x y)
    (past : List UInt8) : seekCommand (packet ++ past) = some (carried x, carried y) := by
  obtain ⟨xs, ys, ⟨hxs, hxd, rfl⟩, ⟨hys, hyd, rfl⟩, rfl⟩ := h
  have hcmp : strncmp (seekPrefix ++ xs ++ [44] ++ ys ++ [10] ++ past) seekPrefix
      seekPrefix.length = 0 := by
    rw [strncmp_eq_zero (Nat.le_refl _) (by decide)]
    simp [List.append_assoc]
  have hdrop : (seekPrefix ++ xs ++ [44] ++ ys ++ [10] ++ past).drop seekPrefix.length =
      xs ++ 44 :: (ys ++ 10 :: past) := by
    simp [List.append_assoc]
  rw [seekCommand, if_pos hcmp, hdrop, scanPair, scanInt_digits hxs hxd (by decide)]
  simp only [scanInt_digits hys hyd (show isDigit 10 = false by decide), Option.map_some,
    toUInt32_saturate]

/-- As long as they fit, it is read as its two numbers. -/
theorem seekCommand_text {packet past : List UInt8} {x y : Nat} (h : IsSeekText packet x y)
    (hx : x < 2 ^ 32) (hy : y < 2 ^ 32) : seekCommand (packet ++ past) = some (x, y) := by
  rw [seekCommand_carried h, carried_of_lt hx, carried_of_lt hy]

end Aesd.Server
