/-!
Text as a list of characters: blanks, cutting at a mark, letter case and numerals.
Blanks are the characters of the Unicode property White_Space; letter case is that of ASCII.
-/
namespace HttpContext.Text

/-- The 25 characters with the Unicode property White_Space. -/
def isBlank (c : Char) : Bool :=
  let n := c.toNat
  (9 ≤ n && n ≤ 13) || n == 0x20 || n == 0x85 || n == 0xA0 || n == 0x1680
    || (0x2000 ≤ n && n ≤ 0x200A) || n == 0x2028 || n == 0x2029 || n == 0x202F
    || n == 0x205F || n == 0x3000

/-- The text without the blanks at its two ends. -/
def trim (cs : List Char) : List Char :=
  ((cs.dropWhile isBlank).reverse.dropWhile isBlank).reverse

/-- The maximal runs of characters that are not blank. -/
def words (cs : List Char) : List (List Char) :=
  (cs.splitOnP isBlank).filter fun word => !word.isEmpty

/-- The text before and the text after the first `mark`. -/
def cut? (mark : Char) (cs : List Char) : Option (List Char × List Char) :=
  match cs.dropWhile (· != mark) with
  | [] => none
  | _ :: rest => some (cs.takeWhile (· != mark), rest)

/-- The text after these characters, when it begins with them. -/
def after? (front cs : List Char) : Option (List Char) :=
  if front.isPrefixOf cs then some (cs.drop front.length) else none

/-- The pieces between the pairs CR LF; there is always at least one. -/
def lines : List Char → List (List Char)
  | [] => [[]]
  | '\r' :: '\n' :: rest => [] :: lines rest
  | c :: rest =>
    match lines rest with
    | [] => [[c]]
    | line :: more => (c :: line) :: more

def occurs (phrase : List Char) : List Char → Bool
  | [] => phrase.isEmpty
  | c :: rest => phrase.isPrefixOf (c :: rest) || occurs phrase rest

/-- What two names are compared by when ASCII case is ignored. -/
def fold (name : String) : List Char :=
  name.toList.map Char.toLower

/-- The two names differ at most in ASCII case. -/
def sameName (a b : String) : Bool :=
  fold a == fold b

def hexDigit? (c : Char) : Option Nat :=
  if c.isDigit then some (c.toNat - 48)
  else if 'a' ≤ c && c ≤ 'f' then some (c.toNat - 87)
  else if 'A' ≤ c && c ≤ 'F' then some (c.toNat - 55)
  else none

/-- The number written by ASCII digits, when there is one and it fits in 64 bits. -/
def digits? (cs : List Char) : Option Nat :=
  if !cs.isEmpty && cs.all Char.isDigit && Nat.ofDigitChars 10 cs 0 < UInt64.size then
    some (Nat.ofDigitChars 10 cs 0)
  else none

/-- A number that may have a plus sign in front. -/
def count? : List Char → Option Nat
  | '+' :: rest => digits? rest
  | cs => digits? cs

theorem cut?_eq_some {mark : Char} {cs before after : List Char}
    (h : cut? mark cs = some (before, after)) : cs = before ++ mark :: after ∧ mark ∉ before := by
  unfold cut? at h
  split at h
  · cases h
  · rename_i c rest hd
    cases h
    have hc : c = mark := by
      have := List.head?_dropWhile_not (· != mark) cs
      rw [hd] at this
      simpa using this
    refine ⟨?_, ?_⟩
    · conv => lhs; rw [← List.takeWhile_append_dropWhile (p := (· != mark)) (l := cs)]
      rw [hd, hc]
    · intro hm
      have := List.all_takeWhile (p := (· != mark)) (l := cs)
      rw [List.all_eq_true] at this
      simpa using this mark hm

theorem cut?_append {mark : Char} {before : List Char} (h : mark ∉ before) (after : List Char) :
    cut? mark (before ++ mark :: after) = some (before, after) := by
  have hbefore : ∀ c ∈ before, (c != mark) = true := by
    intro c hc
    rw [bne_iff_ne]
    exact ne_of_mem_of_not_mem hc h
  have hdrop : (mark :: after).dropWhile (· != mark) = mark :: after := by simp
  have htake : (mark :: after).takeWhile (· != mark) = [] := by simp
  rw [cut?, List.dropWhile_append_of_pos hbefore, List.takeWhile_append_of_pos hbefore, hdrop,
    htake, List.append_nil]

theorem cut?_of_not_mem {mark : Char} {cs : List Char} (h : mark ∉ cs) : cut? mark cs = none := by
  cases hc : cut? mark cs with
  | none => rfl
  | some cut =>
    obtain ⟨before, after⟩ := cut
    rw [(cut?_eq_some hc).1] at h
    exact absurd (List.mem_append_right before List.mem_cons_self) h

theorem sameName_iff {a b : String} : sameName a b = true ↔ fold a = fold b := by
  simp [sameName]

@[simp] theorem sameName_refl (a : String) : sameName a a = true := by
  simp [sameName]

theorem sameName_comm (a b : String) : sameName a b = sameName b a := by
  simp only [sameName, Bool.beq_comm]

theorem isBlank_of_isDigit {c : Char} (h : c.isDigit = true) : isBlank c = false := by
  have hc : 48 ≤ c.toNat ∧ c.toNat ≤ 57 := by
    simpa [Char.isDigit, UInt32.le_iff_toNat_le] using h
  simp only [isBlank, Bool.or_eq_false_iff, Bool.and_eq_false_iff, decide_eq_false_iff_not,
    beq_eq_false_iff_ne]
  omega

/-- Text with no blank at either end stays as it is. -/
theorem trim_of_ends {cs : List Char} (hfirst : ∀ c ∈ cs.head?, isBlank c = false)
    (hlast : ∀ c ∈ cs.getLast?, isBlank c = false) : trim cs = cs := by
  have hd : ∀ {l : List Char}, (∀ c ∈ l.head?, isBlank c = false) → l.dropWhile isBlank = l := by
    intro l hl
    cases l with
    | nil => rfl
    | cons c rest => rw [List.dropWhile_cons_of_neg (by simp [hl c rfl])]
  rw [trim, hd hfirst, hd (by rwa [List.head?_reverse]), List.reverse_reverse]

theorem trim_of_not_isBlank {cs : List Char} (h : ∀ c ∈ cs, isBlank c = false) : trim cs = cs :=
  trim_of_ends (fun c hc => h c (List.mem_of_head? hc)) fun c hc => h c (List.mem_of_getLast? hc)

theorem trim_blank_cons {c : Char} (hc : isBlank c = true) (cs : List Char) :
    trim (c :: cs) = trim cs := by
  rw [trim, List.dropWhile_cons_of_pos hc]
  rfl

theorem isDigit_of_mem_toString {n : Nat} {c : Char} (h : c ∈ (toString n).toList) :
    c.isDigit = true := by
  rw [Nat.toString_eq_repr, Nat.toList_repr] at h
  exact Nat.isDigit_of_mem_toDigits (by decide) (by decide) h

theorem trim_toString (n : Nat) : trim (toString n).toList = (toString n).toList :=
  trim_of_not_isBlank fun _ hc => isBlank_of_isDigit (isDigit_of_mem_toString hc)

/-- A decimal numeral is read back when its number fits in 64 bits, and only then. -/
theorem digits?_toString (n : Nat) :
    digits? (toString n).toList = if n < UInt64.size then some n else none := by
  have hall : (toString n).toList.all Char.isDigit = true :=
    List.all_eq_true.2 fun _ => isDigit_of_mem_toString
  have hvalue : Nat.ofDigitChars 10 (toString n).toList 0 = n := by
    rw [Nat.toString_eq_repr, Nat.toList_repr, Nat.ofDigitChars_ten_toDigits]
  have hne : (toString n).toList.isEmpty = false := by
    rw [Nat.toString_eq_repr, Nat.toList_repr, List.isEmpty_eq_false_iff]
    exact Nat.toDigits_ne_nil
  simp only [digits?, hall, hvalue, hne, Bool.not_false, Bool.and_self, Bool.true_and,
    decide_eq_true_eq]

theorem count?_toString_eq (n : Nat) :
    count? (toString n).toList = if n < UInt64.size then some n else none := by
  rw [← digits?_toString]
  unfold count?
  split
  · -- a plus sign is no digit
    rename_i rest hplus
    have hc : '+'.isDigit = true := isDigit_of_mem_toString (n := n) (hplus ▸ List.mem_cons_self)
    cases hc
  · rfl

theorem count?_toString {n : Nat} (h : n < UInt64.size) : count? (toString n).toList = some n := by
  rw [count?_toString_eq, if_pos h]

theorem digits?_lt {cs : List Char} {n : Nat} (h : digits? cs = some n) : n < UInt64.size := by
  unfold digits? at h
  split at h
  · rename_i hc
    cases h
    simp only [Bool.and_eq_true, decide_eq_true_eq] at hc
    exact hc.2
  · cases h

theorem count?_lt {cs : List Char} {n : Nat} (h : count? cs = some n) : n < UInt64.size := by
  unfold count? at h
  split at h <;> exact digits?_lt h

end HttpContext.Text
