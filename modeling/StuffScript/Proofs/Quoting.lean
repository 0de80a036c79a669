import StuffScript.Text.Quoted
import Mathlib.Algebra.Group.Nat.Defs

/-!
# Quoted text can be read back

Every escape tells the character that it stands for and where it ends, since numeric escapes have as many
digits as their first letter says. Reading an escape back is written down here as a function, and undoes
`Text.escape`. So two quoted texts with something behind them are the same only if the texts are.

The main statement is `Text.quote_append_injective`.
-/

namespace StuffScript.Text

/-- The number that hexadecimal digits stand for. -/
def hexNumber (digits : List Char) : Nat :=
  digits.foldl (fun n c => 16 * n + (hexValue? c).getD 0) 0

/-- How many digits a letter behind a backslash announces. -/
def escapeWidth? (c : Char) : Option Nat :=
  if c = 'x' then some 2 else if c = 'u' then some 4 else if c = 'U' then some 8 else none

/-- The character that a letter or sign behind a backslash stands for by itself. -/
def namedEscape (c : Char) : Char :=
  if c = 'a' then '\x07' else if c = 'b' then '\x08' else if c = 'f' then '\x0c'
  else if c = 'n' then '\n' else if c = 'r' then '\r' else if c = 't' then '\t'
  else if c = 'v' then '\x0b' else c

/-- Read what stands behind a backslash. -/
def readEscape : List Char → Option (Char × List Char)
  | [] => none
  | c :: rest =>
    match escapeWidth? c with
    | some width => some (Char.ofNat (hexNumber (rest.take width)), rest.drop width)
    | none => some (namedEscape c, rest)

/-- Read one character inside quotes. -/
def unescape : List Char → Option (Char × List Char)
  | [] => none
  | c :: rest => if c = '\\' then readEscape rest else some (c, rest)

/-- Hexadecimal digits are read as what they were written for. -/
theorem hexValue?_hexDigit : ∀ d, d < 16 → hexValue? (hexDigit d) = some d := by decide

/-- As many digits as a number has tell it. -/
theorem hexNumber_hexDigits {width n : Nat} (h : n < 16 ^ width) : hexNumber (hexDigits width n) = n := by
  induction width generalizing n with
  | zero =>
    rw [Nat.pow_zero, Nat.lt_one_iff] at h
    rw [h]
    rfl
  | succ width ih =>
    have hdigit : n % 16 < 16 := Nat.mod_lt n (by decide)
    have hmore : n / 16 < 16 ^ width := by
      rw [Nat.pow_succ] at h
      omega
    have hfold := ih hmore
    rw [hexNumber] at hfold
    rw [hexNumber, hexDigits, List.foldl_append, hfold, List.foldl_cons, List.foldl_nil,
      hexValue?_hexDigit _ hdigit, Option.getD_some]
    omega

/-- A numeric escape is read back. -/
theorem unescape_hexDigits {letter : Char} {width : Nat} (hletter : escapeWidth? letter = some width)
    {c : Char} (hc : c.toNat < 16 ^ width) (rest : List Char) :
    unescape ('\\' :: letter :: (hexDigits width c.toNat ++ rest)) = some (c, rest) := by
  have hlength := hexDigits_length width c.toNat
  simp only [unescape, readEscape, if_true, hletter]
  rw [List.take_left' hlength, List.drop_left' hlength, hexNumber_hexDigits hc, Char.ofNat_toNat]

/-- A character with a letter of its own is read back from that letter. -/
theorem unescape_named {c d letter : Char} {others rest : List Char}
    (hletter : readEscape (letter :: rest) = some (d, rest))
    (hothers : c ≠ d → unescape (others ++ rest) = some (c, rest)) :
    unescape ((if c = d then ['\\', letter] else others) ++ rest) = some (c, rest) := by
  by_cases hc : c = d
  · rw [if_pos hc, hc]
    exact hletter
  · rw [if_neg hc]
    exact hothers hc

/-- A character is read back from the way in which it is written inside quotes. -/
theorem unescape_escape (c : Char) (rest : List Char) : unescape (escape c ++ rest) = some (c, rest) := by
  rw [escape]
  by_cases hsign : (c = '"' || c = '\\') = true
  · rw [if_pos hsign]
    simp only [Bool.or_eq_true, decide_eq_true_eq] at hsign
    rcases hsign with rfl | rfl <;> rfl
  rw [if_neg hsign]
  by_cases hprintable : isPrintable c = true
  · simp only [Bool.or_eq_true, decide_eq_true_eq, not_or] at hsign
    rw [if_pos hprintable, List.singleton_append, unescape, if_neg hsign.2]
  rw [if_neg hprintable]
  -- seven of the others have a letter, and what is left has its number
  iterate 7 refine unescape_named rfl fun _ => ?_
  by_cases hascii : c.toNat < 0x80
  · rw [if_pos hascii]
    exact unescape_hexDigits rfl (Nat.lt_trans hascii (by decide)) rest
  rw [if_neg hascii]
  by_cases hshort : c.toNat < 0x10000
  · rw [if_pos hshort]
    exact unescape_hexDigits rfl hshort rest
  rw [if_neg hshort]
  have hlong : c.toNat < 16 ^ 8 := by
    have hvalid := c.valid
    simp only [UInt32.isValidChar, Nat.isValidChar] at hvalid
    change c.val.toNat < _
    omega
  exact unescape_hexDigits rfl hlong rest

/-- Where one character is written, it can be told which, and what follows. -/
theorem escape_append_injective {c c' : Char} {rest rest' : List Char}
    (h : escape c ++ rest = escape c' ++ rest') : c = c' ∧ rest = rest' := by
  have hread := congrArg unescape h
  rw [unescape_escape, unescape_escape] at hread
  exact Prod.mk.inj (Option.some.inj hread)

/-- Inside quotes no quote stands by itself. -/
theorem escape_append_ne (c : Char) (rest rest' : List Char) : escape c ++ rest ≠ '"' :: rest' := by
  intro h
  have hread := congrArg unescape h
  rw [unescape_escape] at hread
  obtain ⟨rfl, -⟩ := Prod.mk.inj (Option.some.inj hread)
  simp [escape] at h

/-- A quoted text can be told up to its closing quote, and so can what follows. -/
theorem flatMap_escape_injective {cs cs' rest rest' : List Char}
    (h : cs.flatMap escape ++ '"' :: rest = cs'.flatMap escape ++ '"' :: rest') :
    cs = cs' ∧ rest = rest' := by
  induction cs generalizing cs' with
  | nil =>
    cases cs' with
    | nil => exact ⟨rfl, (List.cons.inj h).2⟩
    | cons c' cs' =>
      rw [List.flatMap_cons, List.append_assoc] at h
      exact absurd h.symm (escape_append_ne c' _ _)
  | cons c cs ih =>
    cases cs' with
    | nil =>
      rw [List.flatMap_cons, List.append_assoc] at h
      exact absurd h (escape_append_ne c _ _)
    | cons c' cs' =>
      rw [List.flatMap_cons, List.flatMap_cons, List.append_assoc, List.append_assoc] at h
      obtain ⟨rfl, hmore⟩ := escape_append_injective h
      obtain ⟨rfl, hrest⟩ := ih hmore
      exact ⟨rfl, hrest⟩

/-- A quoted text tells the text and where it ends. -/
theorem quote_append_injective {s s' : String} {rest rest' : List Char}
    (h : (quote s).toList ++ rest = (quote s').toList ++ rest') : s = s' ∧ rest = rest' := by
  simp only [quote, String.toList_ofList, List.cons_append, List.append_assoc, List.cons.injEq, true_and,
    List.nil_append] at h
  obtain ⟨hs, hrest⟩ := flatMap_escape_injective h
  exact ⟨String.toList_inj.mp hs, hrest⟩

end StuffScript.Text
