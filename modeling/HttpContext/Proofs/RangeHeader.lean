import HttpContext.Message.ByteRange
import Mathlib.Data.List.TakeWhile
/-!
What a Range header asks for, written as the client writes it: a first and a last position, a first
position alone, or the number of bytes at the end. `ByteRange.resolve_of_asks` reads it back.
-/
namespace HttpContext.ByteRange

open Text

def spanHeader (first last : Nat) : String := "bytes=" ++ toString first ++ "-" ++ toString last

def openHeader (first : Nat) : String := "bytes=" ++ toString first ++ "-"

def suffixHeader (count : Nat) : String := "bytes=-" ++ toString count

/-- What a header asks of a body of this length: the positions of a first and a last byte, or all of
it. -/
inductive Asks (length : Nat) : Option String → Option (Nat × Nat) → Prop
  | absent : Asks length none none
  | span {first last : Nat} : first ≤ last → last < length →
      Asks length (some (spanHeader first last)) (some (first, last))
  | beyond {first last : Nat} : length ≤ first ∨ last < first →
      Asks length (some (spanHeader first last)) none
  | onward {first : Nat} : first < length →
      Asks length (some (openHeader first)) (some (first, length - 1))
  | suffix {count : Nat} : 1 ≤ count → count < UInt64.size → 0 < length →
      Asks length (some (suffixHeader count)) (some (length - min count length, length - 1))

/-- The window of a body of this length that stands for these positions. -/
def ofPositions (length : Nat) : Option (Nat × Nat) → ByteRange
  | some (first, last) => ⟨first, last + 1, length, true⟩
  | none => full length

theorem Asks.bounds {length first last : Nat} {header : Option String}
    (h : Asks length header (some (first, last))) : first ≤ last ∧ last < length := by
  cases h <;> omega

/-! ### Reading the positions -/

theorem bound?_toString (n : Nat) :
    bound? (toString n).toList = if n < UInt64.size then some (some n) else none := by
  have hne : (toString n).toList ≠ [] := by
    rw [Nat.toString_eq_repr, Nat.toList_repr]
    exact Nat.toDigits_ne_nil
  rw [bound?, trim_toString]
  split
  · rename_i hnil
    exact absurd hnil hne
  · rw [count?_toString_eq]
    split <;> rfl

def boundsOf : Option Nat → Option Nat → Option Bounds
  | some first, last => some (.span first last)
  | none, some count => some (.suffix count)
  | none, none => none

/-- Two rows of digits with a dash between them. Each may be empty. -/
theorem firstBounds?_of_isDigit {front back : List Char} (hf : ∀ c ∈ front, c.isDigit = true)
    (hb : ∀ c ∈ back, c.isDigit = true) :
    firstBounds? ("bytes=".toList ++ (front ++ '-' :: back))
      = (bound? front).bind fun first => (bound? back).bind (boundsOf first) := by
  have hplain : ∀ c ∈ front ++ '-' :: back, c.isDigit = true ∨ c = '-' := by
    intro c hc
    rcases List.mem_append.1 hc with hc | hc
    · exact .inl (hf c hc)
    rcases List.mem_cons.1 hc with hc | hc
    · exact .inr hc
    · exact .inl (hb c hc)
  have hblank : ∀ c ∈ front ++ '-' :: back, isBlank c = false := by
    intro c hc
    rcases hplain c hc with hdigit | rfl
    · exact isBlank_of_isDigit hdigit
    · decide
  have hunit : ∀ c ∈ "bytes=".toList ++ (front ++ '-' :: back), isBlank c = false := by
    intro c hc
    rcases List.mem_append.1 hc with hc | hc
    · have hword : "bytes=".toList.all (fun c => !isBlank c) = true := by decide
      simpa using List.all_eq_true.1 hword c hc
    · exact hblank c hc
  have hafter : after? "bytes=".toList ("bytes=".toList ++ (front ++ '-' :: back))
      = some (front ++ '-' :: back) := by
    have hp : "bytes=".toList.isPrefixOf ("bytes=".toList ++ (front ++ '-' :: back)) = true :=
      List.isPrefixOf_iff_prefix.2 (List.prefix_append _ _)
    rw [after?, if_pos hp, List.drop_left]
  -- there is no comma, so the first range is all there is
  have hcomma : (front ++ '-' :: back).takeWhile (· != ',') = front ++ '-' :: back := by
    refine List.takeWhile_eq_self_iff.2 fun c hc => ?_
    rcases hplain c hc with hdigit | rfl
    · rw [bne_iff_ne]
      rintro rfl
      cases hdigit
    · decide
  have hdash : '-' ∉ front := fun hm => nomatch hf '-' hm
  rw [firstBounds?, trim_of_not_isBlank hunit, hafter]
  simp only [Option.bind_eq_bind, Option.bind_some, hcomma, trim_of_not_isBlank hblank,
    cut?_append hdash]
  rfl

theorem firstBounds?_spanHeader (first last : Nat) :
    firstBounds? (spanHeader first last).toList
      = if first < UInt64.size ∧ last < UInt64.size then some (.span first (some last)) else none := by
  have htext : (spanHeader first last).toList
      = "bytes=".toList ++ ((toString first).toList ++ '-' :: (toString last).toList) := by
    simp only [spanHeader, String.toList_append, List.append_assoc]
    rfl
  rw [htext, firstBounds?_of_isDigit (fun _ => isDigit_of_mem_toString)
    (fun _ => isDigit_of_mem_toString), bound?_toString, bound?_toString]
  by_cases hf : first < UInt64.size <;> by_cases hl : last < UInt64.size <;>
    simp [hf, hl, boundsOf]

theorem firstBounds?_openHeader {first : Nat} (h : first < UInt64.size) :
    firstBounds? (openHeader first).toList = some (.span first none) := by
  have htext : (openHeader first).toList
      = "bytes=".toList ++ ((toString first).toList ++ '-' :: []) := by
    simp only [openHeader, String.toList_append, List.append_assoc]
    rfl
  rw [htext, firstBounds?_of_isDigit (fun _ => isDigit_of_mem_toString) (by simp),
    bound?_toString, if_pos h]
  rfl

theorem firstBounds?_suffixHeader {count : Nat} (h : count < UInt64.size) :
    firstBounds? (suffixHeader count).toList = some (.suffix count) := by
  have htext : (suffixHeader count).toList
      = "bytes=".toList ++ ([] ++ '-' :: (toString count).toList) := by
    simp only [suffixHeader, String.toList_append]
    rfl
  rw [htext, firstBounds?_of_isDigit (by simp) (fun _ => isDigit_of_mem_toString),
    bound?_toString, if_pos h]
  rfl

/-! ### The window -/

theorem resolve_of_bounds {header : String} {bounds : Bounds} {length : Nat} (hl : 0 < length)
    (h : firstBounds? header.toList = some bounds) :
    resolve (some header) length = bounds.window length := by
  have hne : length ≠ 0 := by omega
  simp only [resolve, Option.bind_some, h, hne, ↓reduceIte]

theorem resolve_of_none {header : String} (h : firstBounds? header.toList = none) (length : Nat) :
    resolve (some header) length = full length := by
  simp only [resolve, Option.bind_some, h]

/-- The positions that are asked for are the window, and without any it is the whole body. -/
theorem resolve_of_asks {length : Nat} {header : Option String} {asked : Option (Nat × Nat)}
    (h : Asks length header asked) (hsize : length < UInt64.size) :
    resolve header length = ofPositions length asked := by
  cases h with
  | absent => rfl
  | @span first last hle hlt =>
    have hbounds := firstBounds?_spanHeader first last
    rw [if_pos ⟨by omega, by omega⟩] at hbounds
    rw [resolve_of_bounds (by omega) hbounds]
    have hlast : min last (length - 1) = last := by omega
    have hok : ¬ (length ≤ first ∨ last < first) := by omega
    simp only [Bounds.window, Option.map_some, Option.getD_some, hlast, Bool.or_eq_true,
      decide_eq_true_eq, hok, ↓reduceIte, ofPositions]
  | @beyond first last hbeyond =>
    have hbounds := firstBounds?_spanHeader first last
    rcases Nat.eq_zero_or_pos length with rfl | hpos
    · exact resolve_zero _
    split at hbounds
    · rw [resolve_of_bounds hpos hbounds]
      -- an end that is cut off at the length comes no later
      have hbad : length ≤ first ∨ min last (length - 1) < first := by omega
      simp only [Bounds.window, Option.map_some, Option.getD_some, Bool.or_eq_true,
        decide_eq_true_eq, hbad, ↓reduceIte, ofPositions]
    · exact resolve_of_none hbounds length
  | @onward first hlt =>
    rw [resolve_of_bounds (by omega) (firstBounds?_openHeader (by omega))]
    have hok : ¬ (length ≤ first ∨ length - 1 < first) := by omega
    simp only [Bounds.window, Option.map_none, Option.getD_none, Bool.or_eq_true,
      decide_eq_true_eq, hok, ↓reduceIte, ofPositions]
  | @suffix count hone hcount hpos =>
    rw [resolve_of_bounds hpos (firstBounds?_suffixHeader hcount)]
    have hne : count ≠ 0 := by omega
    have hstart : length - min count length = length - count := by omega
    have hstop : length - 1 + 1 = length := by omega
    simp only [Bounds.window, hne, ↓reduceIte, hstart, hstop, ofPositions]

end HttpContext.ByteRange
