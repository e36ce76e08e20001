import Mathlib.Algebra.Group.Int.Defs
import Mathlib.Data.List.TakeWhile

/-!
# Character strings

The functions of `std::string` that programs take names apart with, on lists of characters: `find`,
`substr` and `std::stoi`. `stoi` reads a number at the beginning of a string: it skips white space,
takes a sign, reads digits as long as there are any, and does not look at what follows them.
`Reads t v` says the same without a scan, and `stoi_eq_ok_iff` that the two agree. A number that was
written with `Nat.toDigits`, as `std::to_string` does, is read back (`reads_toDigits`).
-/

namespace NetSim.Library

/-- `s.find(c, pos)`, where `none` is `npos`. -/
def find (c : Char) (pos : Nat) (s : List Char) : Option Nat :=
  ((s.drop pos).findIdx? (· == c)).map (pos + ·)

/-- `s.substr(pos, n)` for a `pos` in `s`; the substring goes to the end when `n` is `npos`. -/
def substr (s : List Char) (pos : Nat) : Option Nat → List Char
  | some n => (s.drop pos).take n
  | none => s.drop pos

theorem findIdx?_eq_none_of_notMem {c : Char} {s : List Char} (h : c ∉ s) :
    s.findIdx? (· == c) = none := by
  rw [List.findIdx?_eq_none_iff]
  intro x hx
  rw [beq_eq_false_iff_ne]
  rintro rfl
  exact h hx

/-- The first character `c` stands behind a part without it. -/
theorem find_append {c : Char} {front : List Char} (before rest : List Char) (h : c ∉ front) :
    find c before.length (before ++ (front ++ c :: rest)) =
      some (before.length + front.length) := by
  simp [find, List.findIdx?_append, List.findIdx?_cons, findIdx?_eq_none_of_notMem h]

theorem find_eq_none {c : Char} {rest : List Char} (before : List Char) (h : c ∉ rest) :
    find c before.length (before ++ rest) = none := by
  rw [find, List.drop_left, findIdx?_eq_none_of_notMem h, Option.map_none]

/-- The part in front of the character, and the part behind it. -/
theorem substr_append (before front rest : List Char) :
    substr (before ++ (front ++ rest)) before.length (some front.length) = front := by
  rw [substr, List.drop_left, List.take_left]

theorem substr_append_cons (before front rest : List Char) (c : Char) :
    substr (before ++ (front ++ c :: rest)) (before.length + front.length + 1) none = rest := by
  have hsplit : before ++ (front ++ c :: rest) = (before ++ front ++ [c]) ++ rest := by simp
  rw [substr, hsplit]
  exact List.drop_left' (by simp [Nat.add_assoc])

theorem takeWhile_append_of_stop {α : Type} {p : α → Bool} {xs ys : List α}
    (hxs : ∀ x ∈ xs, p x = true) (hys : ∀ y ∈ ys.head?, p y = false) :
    (xs ++ ys).takeWhile p = xs ∧ (xs ++ ys).dropWhile p = ys := by
  rw [List.takeWhile_append_of_pos hxs, List.dropWhile_append_of_pos hxs]
  cases ys with
  | nil => simp
  | cons y ys => simp [hys y rfl]

/-- Two strings are split in the same way at the first `c`. -/
theorem append_cons_inj {c : Char} {front front' rest rest' : List Char} (h : c ∉ front)
    (h' : c ∉ front') :
    front ++ c :: rest = front' ++ c :: rest' ↔ front = front' ∧ rest = rest' := by
  have hsplit : ∀ {front rest : List Char}, c ∉ front →
      (front ++ c :: rest).takeWhile (· != c) = front ∧
        (front ++ c :: rest).dropWhile (· != c) = c :: rest := fun hfront =>
    takeWhile_append_of_stop (fun x hx => bne_iff_ne.mpr fun heq => hfront (heq ▸ hx)) (by simp)
  constructor
  · intro heq
    have htake := congrArg (List.takeWhile (· != c)) heq
    have hdrop := congrArg (List.dropWhile (· != c)) heq
    rw [(hsplit h).1, (hsplit h').1] at htake
    rw [(hsplit h).2, (hsplit h').2] at hdrop
    exact ⟨htake, (List.cons.inj hdrop).2⟩
  · rintro ⟨rfl, rfl⟩
    rfl

/-! ## Numbers -/

/-- `isspace` in the locale "C". -/
def isSpace (c : Char) : Bool := [' ', '\t', '\n', '\x0b', '\x0c', '\r'].contains c

/-- The sign in front of a number. -/
inductive Sign
  | none
  | plus
  | minus
deriving DecidableEq, Repr

def Sign.chars : Sign → List Char
  | .none => []
  | .plus => ['+']
  | .minus => ['-']

def Sign.apply : Sign → Nat → Int
  | .none, n | .plus, n => n
  | .minus, n => -n

/-- Take a sign off a string. -/
def splitSign : List Char → Sign × List Char
  | '+' :: t => (.plus, t)
  | '-' :: t => (.minus, t)
  | t => (.none, t)

/-- The exceptions of `std::stoi`. -/
inductive StoiError
  | invalidArgument
  | outOfRange
deriving DecidableEq, Repr

/-- The values of an `int`. -/
def IsInt (v : Int) : Prop := -2 ^ 31 ≤ v ∧ v < 2 ^ 31

instance (v : Int) : Decidable (IsInt v) := inferInstanceAs (Decidable (_ ∧ _))

/-- `std::stoi` -/
def stoi (t : List Char) : Except StoiError Int :=
  let (sign, t) := splitSign (t.dropWhile isSpace)
  let digits := t.takeWhile Char.isDigit
  if digits.isEmpty then .error .invalidArgument
  else
    let v := sign.apply (Nat.ofDigitChars 10 digits 0)
    if IsInt v then .ok v else .error .outOfRange

/-- The string begins with the number `v`: white space, a sign, digits, and then anything that does
not begin with a digit. -/
def Reads (t : List Char) (v : Int) : Prop :=
  ∃ (space : List Char) (sign : Sign) (digits rest : List Char),
    t = space ++ (sign.chars ++ (digits ++ rest)) ∧ (∀ c ∈ space, isSpace c = true) ∧
      digits ≠ [] ∧ (∀ c ∈ digits, c.isDigit = true) ∧ (∀ c ∈ rest.head?, c.isDigit = false) ∧
      v = sign.apply (Nat.ofDigitChars 10 digits 0)

/-- A digit is neither white space nor a sign. -/
theorem of_isDigit {c : Char} (h : c.isDigit = true) : isSpace c = false ∧ c ≠ '+' ∧ c ≠ '-' := by
  refine ⟨?_, ?_, ?_⟩
  · simp only [isSpace, List.contains_eq_mem, decide_eq_false_iff_not, List.mem_cons,
      List.not_mem_nil, or_false, not_or]
    refine ⟨?_, ?_, ?_, ?_, ?_, ?_⟩ <;> rintro rfl <;> revert h <;> decide
  · rintro rfl
    revert h
    decide
  · rintro rfl
    revert h
    decide

theorem splitSign_append (sign : Sign) {c : Char} (h : c.isDigit = true) (t : List Char) :
    splitSign (sign.chars ++ c :: t) = (sign, c :: t) := by
  obtain ⟨-, hplus, hminus⟩ := of_isDigit h
  cases sign with
  | none => simp [Sign.chars, splitSign, hplus, hminus]
  | plus => rfl
  | minus => rfl

theorem splitSign_eq (t : List Char) : t = (splitSign t).1.chars ++ (splitSign t).2 := by
  unfold splitSign
  split <;> rfl

/-- The parts of `Reads` are the parts of the scan. -/
theorem reads_iff {t : List Char} {v : Int} :
    Reads t v ↔
      (splitSign (t.dropWhile isSpace)).2.takeWhile Char.isDigit ≠ [] ∧
        v = (splitSign (t.dropWhile isSpace)).1.apply
          (Nat.ofDigitChars 10 ((splitSign (t.dropWhile isSpace)).2.takeWhile Char.isDigit) 0) := by
  constructor
  · rintro ⟨space, sign, digits, rest, rfl, hspace, hne, hdigits, hrest, rfl⟩
    obtain ⟨d, ds, rfl⟩ := List.exists_cons_of_ne_nil hne
    have hd : d.isDigit = true := hdigits d List.mem_cons_self
    have hstop : ∀ c ∈ (sign.chars ++ (d :: ds ++ rest)).head?, isSpace c = false := by
      cases sign with
      | none =>
        rintro c ⟨⟩
        exact (of_isDigit hd).1
      | plus | minus =>
        rintro c ⟨⟩
        decide
    rw [(takeWhile_append_of_stop hspace hstop).2, List.cons_append, splitSign_append sign hd,
      ← List.cons_append, (takeWhile_append_of_stop hdigits hrest).1]
    exact ⟨hne, rfl⟩
  · rintro ⟨hne, rfl⟩
    refine ⟨t.takeWhile isSpace, _, _,
      (splitSign (t.dropWhile isSpace)).2.dropWhile Char.isDigit, ?_, ?_, hne, ?_, ?_, rfl⟩
    · rw [List.takeWhile_append_dropWhile, ← splitSign_eq, List.takeWhile_append_dropWhile]
    · exact fun c hc => List.mem_takeWhile_imp hc
    · exact fun c hc => List.mem_takeWhile_imp hc
    · intro c hc
      have hstop := List.head?_dropWhile_not Char.isDigit (splitSign (t.dropWhile isSpace)).2
      rw [Option.mem_def.mp hc] at hstop
      simpa using hstop

theorem Reads.unique {t : List Char} {v w : Int} (hv : Reads t v) (hw : Reads t w) : v = w :=
  (reads_iff.mp hv).2.trans (reads_iff.mp hw).2.symm

/-- `stoi` returns the number that the string begins with, if that is an `int`. -/
theorem stoi_eq_ok_iff {t : List Char} {v : Int} : stoi t = .ok v ↔ Reads t v ∧ IsInt v := by
  rw [reads_iff]
  unfold stoi
  dsimp only
  split
  · rename_i hempty
    refine iff_of_false nofun fun h => h.1.1 ?_
    exact List.isEmpty_iff.mp hempty
  · rename_i hdigits
    have hne := fun h => hdigits (List.isEmpty_iff.mpr h)
    split
    · rename_i hint
      constructor
      · rintro ⟨⟩
        exact ⟨⟨hne, rfl⟩, hint⟩
      · rintro ⟨⟨-, rfl⟩, -⟩
        rfl
    · rename_i hout
      refine iff_of_false nofun ?_
      rintro ⟨⟨-, rfl⟩, hint⟩
      exact hout hint

/-- A number that was written in decimal is read back. -/
theorem reads_toDigits (n : Nat) : Reads (Nat.toDigits 10 n) n := by
  refine ⟨[], .none, Nat.toDigits 10 n, [], by simp [Sign.chars], by simp, Nat.toDigits_ne_nil,
    ?_, by simp, ?_⟩
  · intro c hc
    exact Nat.isDigit_of_mem_toDigits (by decide) (by decide) hc
  · rw [Nat.ofDigitChars_ten_toDigits]
    rfl

end NetSim.Library
