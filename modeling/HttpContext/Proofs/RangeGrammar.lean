import HttpContext.Proofs.RangeHeader
import Mathlib.Data.List.TakeWhile
/-!
The grammar of a Range header: which texts ask for a window, and for which one. A reading of
numerals is a parameter of it: `IsNumeral` is that of the grammar, and `IsCount` is how a header is
read.
Main statement: `ByteRange.resolve_grammar`.
-/
namespace HttpContext

namespace Text

/-! ### Blanks around a text -/

theorem trim_isBlank_append {blanks : List Char} (h : ∀ c ∈ blanks, isBlank c = true)
    (cs : List Char) : trim (blanks ++ cs) = trim cs := by
  induction blanks with
  | nil => rfl
  | cons c rest ih =>
    rw [List.cons_append, trim_blank_cons (h c List.mem_cons_self),
      ih fun d hd => h d (List.mem_cons_of_mem c hd)]

theorem trim_append_isBlank {blanks : List Char} (h : ∀ c ∈ blanks, isBlank c = true)
    (cs : List Char) : trim (cs ++ blanks) = trim cs := by
  have hback : ∀ l : List Char, (l ++ blanks).reverse.dropWhile isBlank
      = l.reverse.dropWhile isBlank := fun l => by
    rw [List.reverse_append, List.dropWhile_append_of_pos fun c hc => h c (List.mem_reverse.1 hc)]
  rw [trim, List.dropWhile_append]
  split
  · rename_i hcs
    -- the text is blank too, so nothing is left on either side
    have hnone : blanks.dropWhile isBlank = [] := List.dropWhile_eq_nil_iff.2 h
    rw [hnone, trim, List.isEmpty_iff.1 hcs]
  · rw [hback, trim]

/-- Only blanks are lost by trimming. -/
theorem exists_trim (cs : List Char) :
    ∃ before after, cs = before ++ trim cs ++ after ∧ (∀ c ∈ before, isBlank c = true)
      ∧ ∀ c ∈ after, isBlank c = true := by
  refine ⟨cs.takeWhile isBlank, ((cs.dropWhile isBlank).reverse.takeWhile isBlank).reverse, ?_,
    fun c hc => List.mem_takeWhile_imp hc,
    fun c hc => List.mem_takeWhile_imp (List.mem_reverse.1 hc)⟩
  rw [trim, List.append_assoc, ← List.reverse_append, List.takeWhile_append_dropWhile,
    List.reverse_reverse, List.takeWhile_append_dropWhile]

theorem trim_trim (cs : List Char) : trim (trim cs) = trim cs := by
  obtain ⟨before, after, hcs, hbefore, hafter⟩ := exists_trim cs
  conv => rhs; rw [hcs, trim_append_isBlank hafter, trim_isBlank_append hbefore]

theorem mem_trim_iff {c : Char} (hc : isBlank c = false) {cs : List Char} :
    c ∈ trim cs ↔ c ∈ cs := by
  obtain ⟨before, after, hcs, hbefore, hafter⟩ := exists_trim cs
  have hout : c ∉ before ∧ c ∉ after :=
    ⟨fun hm => by simp [hbefore c hm] at hc, fun hm => by simp [hafter c hm] at hc⟩
  conv => rhs; rw [hcs]
  simp only [List.mem_append, hout, false_or, or_false]

/-- A cut is the same, but for the blanks at its ends, before and after trimming. -/
theorem map_trim_cut?_trim {mark : Char} (hm : isBlank mark = false) (cs : List Char) :
    (cut? mark (trim cs)).map (Prod.map trim trim) = (cut? mark cs).map (Prod.map trim trim) := by
  by_cases hin : mark ∈ trim cs
  · obtain ⟨before, after, hcs, hbefore, hafter⟩ := exists_trim cs
    obtain ⟨front, back, htrim, hfront⟩ := List.eq_append_cons_of_mem hin
    have hout : mark ∉ before ++ front := by
      rw [List.mem_append, not_or]
      exact ⟨fun h => by simp [hbefore mark h] at hm, hfront⟩
    have hcut : cut? mark cs = some (before ++ front, back ++ after) := by
      conv => lhs; rw [hcs, htrim]
      rw [← cut?_append hout]
      simp only [List.append_assoc, List.cons_append]
    rw [hcut, htrim, cut?_append hfront]
    simp only [Option.map_some, Prod.map_apply, trim_isBlank_append hbefore,
      trim_append_isBlank hafter]
  · rw [cut?_of_not_mem hin, cut?_of_not_mem (mt (mem_trim_iff hm).2 hin)]

/-! ### Numerals -/

/-- One or more ASCII digits, and the number that they write, of whatever size. -/
def IsNumeral (cs : List Char) (n : Nat) : Prop :=
  cs ≠ [] ∧ (∀ c ∈ cs, c.isDigit = true) ∧ Nat.ofDigitChars 10 cs 0 = n

/-- A numeral that may have a plus sign in front. -/
def IsSigned (cs : List Char) (n : Nat) : Prop :=
  IsNumeral cs n ∨ ∃ rest, cs = '+' :: rest ∧ IsNumeral rest n

/-- A numeral that may have a plus sign in front and whose number fits in 64 bits. -/
def IsCount (cs : List Char) (n : Nat) : Prop :=
  IsSigned cs n ∧ n < UInt64.size

variable {cs : List Char} {n : Nat}

theorem digits?_eq_some_iff : digits? cs = some n ↔ IsNumeral cs n ∧ n < UInt64.size := by
  unfold digits? IsNumeral
  constructor
  · intro h
    split at h
    · rename_i hc
      cases h
      simpa [and_assoc] using hc
    · cases h
  · rintro ⟨⟨hne, hdigits, rfl⟩, hlt⟩
    rw [if_pos]
    simpa [and_assoc] using ⟨hne, hdigits, hlt⟩

theorem IsNumeral.plus_not_mem (h : IsNumeral cs n) : '+' ∉ cs := fun hm => nomatch h.2.1 '+' hm

theorem count?_eq_some_iff : count? cs = some n ↔ IsCount cs n := by
  unfold count? IsCount IsSigned
  split
  · rename_i rest
    have hno : ¬ IsNumeral ('+' :: rest) n := fun h => h.plus_not_mem List.mem_cons_self
    simp [digits?_eq_some_iff, hno]
  · rename_i hplus
    rw [digits?_eq_some_iff]
    refine and_congr_left' ⟨.inl, fun h => h.resolve_right ?_⟩
    rintro ⟨rest, rfl, _⟩
    exact hplus rest rfl

theorem IsSigned.isNumeral_iff (h : IsSigned cs n) : IsNumeral cs n ↔ '+' ∉ cs := by
  refine ⟨IsNumeral.plus_not_mem, fun hplus => h.resolve_right ?_⟩
  rintro ⟨rest, rfl, _⟩
  exact hplus List.mem_cons_self

theorem IsSigned.ne_nil (h : IsSigned cs n) : cs ≠ [] := by
  rcases h with h | ⟨rest, rfl, _⟩
  · exact h.1
  · exact List.cons_ne_nil _ _

theorem IsSigned.dash_not_mem (h : IsSigned cs n) : '-' ∉ cs := by
  have hdigits : ∀ {cs : List Char}, IsNumeral cs n → '-' ∉ cs := fun h hm => nomatch h.2.1 '-' hm
  rcases h with h | ⟨rest, rfl, h⟩
  · exact hdigits h
  · exact List.not_mem_cons_of_ne_of_not_mem (by decide) (hdigits h)

theorem IsSigned.unique {m : Nat} (h : IsSigned cs n) (hm : IsSigned cs m) : n = m := by
  rcases h with h | ⟨rest, rfl, h⟩ <;> rcases hm with hm | ⟨rest', he, hm⟩
  · exact h.2.2.symm.trans hm.2.2
  · exact absurd (he ▸ List.mem_cons_self) h.plus_not_mem
  · exact absurd List.mem_cons_self hm.plus_not_mem
  · cases he
    exact h.2.2.symm.trans hm.2.2

end Text

namespace ByteRange

open Text

/-! ### The grammar -/

/-- The header has the unit of bytes, and this text as the first of its ranges. -/
def IsFirstRange (header text : List Char) : Prop :=
  ∃ rest, trim header = "bytes=".toList ++ (text ++ rest) ∧ ',' ∉ text
    ∧ (rest = [] ∨ ∃ more, rest = ',' :: more)

/-- A range states bounds: two positions, a first position alone, or a number of bytes at the end,
with blanks around each numeral. -/
inductive States (numeral : List Char → Nat → Prop) : List Char → Bounds → Prop
  | span {front back : List Char} {first last : Nat} : numeral (trim front) first →
      numeral (trim back) last → States numeral (front ++ '-' :: back) (.span first (some last))
  | onward {front back : List Char} {first : Nat} : numeral (trim front) first → trim back = [] →
      States numeral (front ++ '-' :: back) (.span first none)
  | suffix {front back : List Char} {count : Nat} : trim front = [] → numeral (trim back) count →
      States numeral (front ++ '-' :: back) (.suffix count)

/-- The first and the last position that bounds select of a body of this length. -/
inductive Covers (length : Nat) : Bounds → Nat → Nat → Prop
  | span {first last : Nat} : first < length → first ≤ last →
      Covers length (.span first (some last)) first (min last (length - 1))
  | onward {first : Nat} : first < length → Covers length (.span first none) first (length - 1)
  | suffix {count : Nat} : 0 < length → 1 ≤ count →
      Covers length (.suffix count) (length - min count length) (length - 1)

/-- The first range of the header selects these positions. -/
def Selects (numeral : List Char → Nat → Prop) (header : String) (length first last : Nat) : Prop :=
  ∃ text bounds, IsFirstRange header.toList text ∧ States numeral text bounds
    ∧ Covers length bounds first last

/-- The window that a header asks for: the positions that it selects, and else all of the body. -/
inductive IsWindow (numeral : List Char → Nat → Prop) (header : String) (length : Nat) :
    ByteRange → Prop
  | selected {first last : Nat} : Selects numeral header length first last →
      IsWindow numeral header length ⟨first, last + 1, length, true⟩
  | whole : (∀ first last, ¬ Selects numeral header length first last) →
      IsWindow numeral header length (full length)

def Bounds.numbers : Bounds → List Nat
  | span first last => first :: last.toList
  | suffix count => [count]

/-! ### What is read of a header -/

theorem bound?_eq (cs : List Char) :
    bound? cs = if trim cs = [] then some none else (count? (trim cs)).map some := by
  unfold bound?
  split
  · rename_i h
    rw [if_pos h]
  · rename_i h
    rw [if_neg h]

theorem bound?_trim (cs : List Char) : bound? (trim cs) = bound? cs := by
  rw [bound?_eq, bound?_eq, trim_trim]

/-- What a bound between blanks states; one that is left out states nothing. -/
def StatesBound (numeral : List Char → Nat → Prop) (cs : List Char) : Option Nat → Prop
  | none => trim cs = []
  | some n => numeral (trim cs) n

theorem bound?_eq_some_iff {cs : List Char} {bound : Option Nat} :
    bound? cs = some bound ↔ StatesBound IsCount cs bound := by
  rw [bound?_eq]
  cases bound with
  | none => by_cases h : trim cs = [] <;> simp [StatesBound, h]
  | some n =>
    by_cases h : trim cs = []
    · have hno : ¬ IsCount [] n := fun hcount => hcount.1.ne_nil rfl
      simp [StatesBound, h, hno]
    · simp [StatesBound, h, count?_eq_some_iff]

theorem StatesBound.dash_not_mem {numeral : List Char → Nat → Prop}
    (himp : ∀ cs n, numeral cs n → IsSigned cs n) {cs : List Char} {bound : Option Nat}
    (h : StatesBound numeral cs bound) : '-' ∉ cs := by
  have hdash : isBlank '-' = false := by decide
  rw [← mem_trim_iff hdash]
  cases bound with
  | none => exact h ▸ List.not_mem_nil
  | some n => exact (himp _ _ h).dash_not_mem

theorem StatesBound.unique {cs : List Char} {bound other : Option Nat}
    (h : StatesBound IsSigned cs bound) (ho : StatesBound IsSigned cs other) : bound = other := by
  cases bound with
  | none =>
    cases other with
    | none => rfl
    | some n => exact absurd h (IsSigned.ne_nil ho)
  | some m =>
    cases other with
    | none => exact absurd ho (IsSigned.ne_nil h)
    | some n => exact congrArg some (IsSigned.unique h ho)

/-- The bounds of a range stand on both sides of its first dash. -/
theorem States.exists_cut {numeral : List Char → Nat → Prop}
    (himp : ∀ cs n, numeral cs n → IsSigned cs n) {text : List Char} {bounds : Bounds}
    (h : States numeral text bounds) :
    ∃ front back first last, cut? '-' text = some (front, back) ∧ StatesBound numeral front first
      ∧ StatesBound numeral back last ∧ boundsOf first last = some bounds := by
  have hcut : ∀ (front back : List Char) (first : Option Nat), StatesBound numeral front first →
      cut? '-' (front ++ '-' :: back) = some (front, back) :=
    fun _ _ _ hfirst => cut?_append (hfirst.dash_not_mem himp) _
  cases h with
  | @span front back first last hfirst hlast =>
    exact ⟨front, back, some first, some last, hcut _ _ (some first) hfirst, hfirst, hlast, rfl⟩
  | @onward front back first hfirst hlast =>
    exact ⟨front, back, some first, none, hcut _ _ (some first) hfirst, hfirst, hlast, rfl⟩
  | @suffix front back count hfirst hcount =>
    exact ⟨front, back, none, some count, hcut _ _ none hfirst, hfirst, hcount, rfl⟩

/-- A range states one pair of bounds. -/
theorem States.unique {text : List Char} {bounds other : Bounds} (h : States IsSigned text bounds)
    (ho : States IsSigned text other) : bounds = other := by
  obtain ⟨front, back, first, last, hcut, hfirst, hlast, hbounds⟩ := h.exists_cut fun _ _ => id
  obtain ⟨front', back', first', last', hcut', hfirst', hlast', hbounds'⟩ :=
    ho.exists_cut fun _ _ => id
  cases hcut.symm.trans hcut'
  cases hfirst.unique hfirst'
  cases hlast.unique hlast'
  exact Option.some.inj (hbounds.symm.trans hbounds')

/-- The bounds that two texts state, the one before and the one behind the dash. -/
def boundsBetween (ends : List Char × List Char) : Option Bounds :=
  (bound? ends.1).bind fun first => (bound? ends.2).bind (boundsOf first)

theorem states_iff {text : List Char} {bounds : Bounds} :
    (cut? '-' text).bind boundsBetween = some bounds ↔ States IsCount text bounds := by
  constructor
  · intro h
    obtain ⟨⟨front, back⟩, hcut, hbetween⟩ := Option.bind_eq_some_iff.1 h
    rw [(cut?_eq_some hcut).1]
    obtain ⟨first, hfirst, hrest⟩ := Option.bind_eq_some_iff.1 hbetween
    obtain ⟨last, hlast, hbounds⟩ := Option.bind_eq_some_iff.1 hrest
    rw [bound?_eq_some_iff] at hfirst hlast
    cases first with
    | some first =>
      cases hbounds
      cases last with
      | some last => exact .span hfirst hlast
      | none => exact .onward hfirst hlast
    | none =>
      cases last with
      | some count =>
        cases hbounds
        exact .suffix hfirst hlast
      | none => cases hbounds
  · intro h
    obtain ⟨front, back, first, last, hcut, hfirst, hlast, hbounds⟩ :=
      h.exists_cut fun _ _ hcount => hcount.1
    rw [hcut, Option.bind_some, boundsBetween, bound?_eq_some_iff.2 hfirst, Option.bind_some,
      bound?_eq_some_iff.2 hlast, Option.bind_some, hbounds]

theorem isFirstRange_iff {header text : List Char} :
    (after? "bytes=".toList (trim header)).map (fun ranges => ranges.takeWhile (· != ','))
      = some text ↔ IsFirstRange header text := by
  have hcomma : ∀ {text rest : List Char}, ',' ∉ text → (rest = [] ∨ ∃ more, rest = ',' :: more) →
      (text ++ rest).takeWhile (· != ',') = text := by
    rintro text rest htext hrest
    rw [List.takeWhile_append_of_pos fun c hc => bne_iff_ne.2 (ne_of_mem_of_not_mem hc htext)]
    rcases hrest with rfl | ⟨more, rfl⟩ <;> simp
  constructor
  · intro h
    obtain ⟨ranges, hafter, rfl⟩ := Option.map_eq_some_iff.1 h
    unfold after? at hafter
    split at hafter
    · rename_i hunit
      obtain ⟨tail, htail⟩ := List.isPrefixOf_iff_prefix.1 hunit
      cases hafter
      rw [← htail, List.drop_left]
      refine ⟨tail.dropWhile (· != ','), by rw [List.takeWhile_append_dropWhile, htail],
        fun hm => by simpa using List.mem_takeWhile_imp hm, ?_⟩
      cases hd : tail.dropWhile (· != ',') with
      | nil => exact .inl rfl
      | cons c more =>
        have hc := List.head?_dropWhile_not (· != ',') tail
        rw [hd] at hc
        exact .inr ⟨more, by simpa using hc⟩
    · cases hafter
  · rintro ⟨rest, hheader, htext, hrest⟩
    have hunit : "bytes=".toList.isPrefixOf (trim header) = true :=
      List.isPrefixOf_iff_prefix.2 (hheader ▸ List.prefix_append _ _)
    rw [after?, if_pos hunit, hheader, List.drop_left, Option.map_some, hcomma htext hrest]

/-- The bounds of a header are those that its first range states. -/
theorem firstBounds?_eq_some_iff {header : List Char} {bounds : Bounds} :
    firstBounds? header = some bounds
      ↔ ∃ text, IsFirstRange header text ∧ States IsCount text bounds := by
  have hdash : isBlank '-' = false := by decide
  -- the blanks around the range are also blanks around its numerals
  have htrim : ∀ text, (cut? '-' (trim text)).bind boundsBetween
      = (cut? '-' text).bind boundsBetween := fun text => by
    have hbetween : ∀ cut : Option (List Char × List Char),
        (cut.map (Prod.map trim trim)).bind boundsBetween = cut.bind boundsBetween := by
      intro cut
      cases cut with
      | none => rfl
      | some ends => simp only [Option.map_some, Option.bind_some, boundsBetween, Prod.map_fst,
          Prod.map_snd, bound?_trim]
    rw [← hbetween, map_trim_cut?_trim hdash, hbetween]
  have hread : firstBounds? header
      = ((after? "bytes=".toList (trim header)).map fun ranges => ranges.takeWhile (· != ',')).bind
          fun text => (cut? '-' text).bind boundsBetween := by
    have hranges : firstBounds? header = (after? "bytes=".toList (trim header)).bind fun ranges =>
        (cut? '-' (trim (ranges.takeWhile (· != ',')))).bind boundsBetween := rfl
    simp only [htrim] at hranges
    rw [hranges]
    cases after? "bytes=".toList (trim header) <;> rfl
  rw [hread, Option.bind_eq_some_iff]
  simp only [isFirstRange_iff, states_iff]

/-! ### The window -/

theorem window_of_covers {length first last : Nat} {bounds : Bounds}
    (h : Covers length bounds first last) :
    bounds.window length = ⟨first, last + 1, length, true⟩ := by
  cases h with
  | @span first last hlt hle =>
    have hok : ¬ (length ≤ first ∨ min last (length - 1) < first) := by omega
    simp only [Bounds.window, Option.map_some, Option.getD_some, Bool.or_eq_true, decide_eq_true_eq,
      hok, ↓reduceIte]
  | onward hlt =>
    have hok : ¬ (length ≤ first ∨ length - 1 < first) := by omega
    simp only [Bounds.window, Option.map_none, Option.getD_none, Bool.or_eq_true, decide_eq_true_eq,
      hok, ↓reduceIte]
  | @suffix count hpos hone =>
    have hne : count ≠ 0 := by omega
    have hstart : length - min count length = length - count := by omega
    have hstop : length - 1 + 1 = length := by omega
    simp only [Bounds.window, hne, ↓reduceIte, hstart, hstop]

theorem window_of_not_covers {length : Nat} (hl : 0 < length) {bounds : Bounds}
    (h : ∀ first last, ¬ Covers length bounds first last) : bounds.window length = full length := by
  cases bounds with
  | span first last =>
    cases last with
    | some last =>
      have hbad : length ≤ first ∨ min last (length - 1) < first := by
        by_contra hok
        exact h _ _ (.span (by omega) (by omega))
      simp only [Bounds.window, Option.map_some, Option.getD_some, Bool.or_eq_true,
        decide_eq_true_eq, hbad, ↓reduceIte]
    | none =>
      have hbad : length ≤ first ∨ length - 1 < first := by
        by_contra hok
        exact h _ _ (.onward (by omega))
      simp only [Bounds.window, Option.map_none, Option.getD_none, Bool.or_eq_true,
        decide_eq_true_eq, hbad, ↓reduceIte]
  | suffix count =>
    have hzero : count = 0 := by
      by_contra hne
      exact h _ _ (.suffix hl (by omega))
    simp only [Bounds.window, hzero, ↓reduceIte]

/-- A header is read by its grammar, with plus signs and numbers below 2^64. -/
theorem isWindow_resolve (header : String) (length : Nat) :
    IsWindow IsCount header length (resolve (some header) length) := by
  cases hb : firstBounds? header.toList with
  | none =>
    rw [resolve_of_none hb]
    refine .whole fun first last ⟨text, bounds, htext, hstates, _⟩ => ?_
    have hsome := firstBounds?_eq_some_iff.2 ⟨text, htext, hstates⟩
    rw [hb] at hsome
    cases hsome
  | some bounds =>
    obtain ⟨text, htext, hstates⟩ := firstBounds?_eq_some_iff.1 hb
    by_cases hcovers : ∃ first last, Covers length bounds first last
    · obtain ⟨first, last, hcovers⟩ := hcovers
      have hl : 0 < length := by cases hcovers <;> omega
      rw [resolve_of_bounds hl hb, window_of_covers hcovers]
      exact .selected ⟨text, bounds, htext, hstates, hcovers⟩
    · simp only [not_exists] at hcovers
      have hfull : resolve (some header) length = full length := by
        rcases Nat.eq_zero_or_pos length with rfl | hl
        · exact resolve_zero _
        · rw [resolve_of_bounds hl hb, window_of_not_covers hl hcovers]
      rw [hfull]
      refine .whole fun first last ⟨text', bounds', htext', hstates', hcovers'⟩ => ?_
      have hsame := firstBounds?_eq_some_iff.2 ⟨text', htext', hstates'⟩
      cases hb.symm.trans hsame
      exact hcovers first last hcovers'

/-! ### Two readings of numerals -/

theorem States.mono {numeral other : List Char → Nat → Prop} {text : List Char} {bounds : Bounds}
    (h : States numeral text bounds) (himp : ∀ cs n, numeral cs n → other cs n) :
    States other text bounds := by
  cases h with
  | span hfirst hlast => exact .span (himp _ _ hfirst) (himp _ _ hlast)
  | onward hfirst hlast => exact .onward (himp _ _ hfirst) hlast
  | suffix hfirst hcount => exact .suffix hfirst (himp _ _ hcount)

theorem states_isCount_iff {text : List Char} {bounds : Bounds} :
    States IsCount text bounds
      ↔ States IsSigned text bounds ∧ ∀ n ∈ bounds.numbers, n < UInt64.size := by
  refine ⟨fun h => ⟨h.mono fun _ _ hcount => hcount.1, ?_⟩, fun ⟨h, hsize⟩ => ?_⟩
  · cases h with
    | span hfirst hlast => simpa [Bounds.numbers] using ⟨hfirst.2, hlast.2⟩
    | onward hfirst _ => simpa [Bounds.numbers] using hfirst.2
    | suffix _ hcount => simpa [Bounds.numbers] using hcount.2
  · cases h with
    | span hfirst hlast =>
      simp only [Bounds.numbers, Option.toList_some, List.forall_mem_cons] at hsize
      exact .span ⟨hfirst, hsize.1⟩ ⟨hlast, hsize.2.1⟩
    | onward hfirst hlast => exact .onward ⟨hfirst, hsize _ List.mem_cons_self⟩ hlast
    | suffix hfirst hcount => exact .suffix hfirst ⟨hcount, hsize _ List.mem_cons_self⟩

theorem plus_not_mem_iff (front back : List Char) :
    '+' ∉ front ++ '-' :: back ↔ '+' ∉ trim front ∧ '+' ∉ trim back := by
  have hplus : isBlank '+' = false := by decide
  have hdash : ¬ '+' = '-' := by decide
  rw [mem_trim_iff hplus, mem_trim_iff hplus, List.mem_append, List.mem_cons, not_or, not_or]
  simp only [hdash, not_false_eq_true, true_and]

theorem states_isNumeral_iff {text : List Char} {bounds : Bounds} :
    States IsNumeral text bounds ↔ States IsSigned text bounds ∧ '+' ∉ text := by
  refine ⟨fun h => ⟨h.mono fun _ _ => .inl, ?_⟩, fun ⟨h, hsign⟩ => ?_⟩
  · cases h with
    | span hfirst hlast =>
      exact (plus_not_mem_iff _ _).2 ⟨hfirst.plus_not_mem, hlast.plus_not_mem⟩
    | onward hfirst hlast =>
      exact (plus_not_mem_iff _ _).2 ⟨hfirst.plus_not_mem, hlast ▸ List.not_mem_nil⟩
    | suffix hfirst hcount =>
      exact (plus_not_mem_iff _ _).2 ⟨hfirst ▸ List.not_mem_nil, hcount.plus_not_mem⟩
  · cases h with
    | span hfirst hlast =>
      obtain ⟨hfront, hback⟩ := (plus_not_mem_iff _ _).1 hsign
      exact .span (hfirst.isNumeral_iff.2 hfront) (hlast.isNumeral_iff.2 hback)
    | onward hfirst hlast =>
      exact .onward (hfirst.isNumeral_iff.2 ((plus_not_mem_iff _ _).1 hsign).1) hlast
    | suffix hfirst hcount =>
      exact .suffix hfirst (hcount.isNumeral_iff.2 ((plus_not_mem_iff _ _).1 hsign).2)

/-- A header has one first range. -/
theorem IsFirstRange.unique {header text other : List Char} (h : IsFirstRange header text)
    (ho : IsFirstRange header other) : text = other :=
  Option.some.inj ((isFirstRange_iff.2 h).symm.trans (isFirstRange_iff.2 ho))

theorem Covers.unique {length first last first' last' : Nat} {bounds : Bounds}
    (h : Covers length bounds first last) (ho : Covers length bounds first' last') :
    first = first' ∧ last = last' := by
  cases h <;> cases ho <;> exact ⟨rfl, rfl⟩

theorem Selects.unique {header : String} {length first last first' last' : Nat}
    (h : Selects IsSigned header length first last)
    (ho : Selects IsSigned header length first' last') : first = first' ∧ last = last' := by
  obtain ⟨text, bounds, htext, hstates, hcovers⟩ := h
  obtain ⟨text', bounds', htext', hstates', hcovers'⟩ := ho
  cases htext.unique htext'
  cases hstates.unique hstates'
  exact hcovers.unique hcovers'

theorem Selects.mono {numeral other : List Char → Nat → Prop} {header : String}
    {length first last : Nat} (h : Selects numeral header length first last)
    (himp : ∀ cs n, numeral cs n → other cs n) : Selects other header length first last := by
  obtain ⟨text, bounds, htext, hstates, hcovers⟩ := h
  exact ⟨text, bounds, htext, hstates.mono himp, hcovers⟩

theorem IsWindow.selects_iff {numeral : List Char → Nat → Prop}
    (himp : ∀ cs n, numeral cs n → IsSigned cs n) {header : String} {length first last : Nat}
    {window : ByteRange} (h : IsWindow numeral header length window) :
    Selects numeral header length first last ↔ window = ⟨first, last + 1, length, true⟩ := by
  cases h with
  | @selected first' last' hs =>
    refine ⟨fun hs' => ?_, fun he => ?_⟩
    · obtain ⟨rfl, rfl⟩ := (hs.mono himp).unique (hs'.mono himp)
      rfl
    · cases he
      exact hs
  | whole hnone => exact iff_of_false (hnone first last) nofun

theorem IsWindow.congr {numeral other : List Char → Nat → Prop} {header : String} {length : Nat}
    {window : ByteRange} (h : IsWindow numeral header length window)
    (hiff : ∀ first last, Selects numeral header length first last
      ↔ Selects other header length first last) : IsWindow other header length window := by
  cases h with
  | selected hs => exact .selected ((hiff _ _).1 hs)
  | whole hnone => exact .whole fun first last => mt (hiff first last).2 (hnone first last)

/-- Any header is read by the grammar of ranges, except for its numerals: these may have a plus sign
and must be below 2^64, and else the window is that of the whole body. So the window is the one that
the grammar gives exactly if the header selects none, even with plus signs and numbers of any size,
or does so with all its numbers below 2^64 and without a plus sign, or with neither. -/
theorem resolve_grammar (header : String) (length : Nat) :
    IsWindow IsCount header length (resolve (some header) length)
      ∧ (IsWindow IsNumeral header length (resolve (some header) length) ↔
        ∀ text bounds first last, IsFirstRange header.toList text → States IsSigned text bounds →
          Covers length bounds first last →
          ('+' ∉ text ↔ ∀ n ∈ bounds.numbers, n < UInt64.size)) := by
  have hnumeral : ∀ cs n, IsNumeral cs n → IsSigned cs n := fun _ _ => .inl
  have hcount : ∀ cs n, IsCount cs n → IsSigned cs n := fun _ _ h => h.1
  have hread := isWindow_resolve header length
  refine ⟨hread, fun h text bounds first last htext hstates hcovers => ?_, fun h => ?_⟩
  · -- the two readings select the same positions, and they do so by the same bounds
    have hsame : Selects IsNumeral header length first last
        ↔ Selects IsCount header length first last :=
      (h.selects_iff hnumeral).trans (hread.selects_iff hcount).symm
    have hbounds : ∀ {numeral : List Char → Nat → Prop}, (∀ cs n, numeral cs n → IsSigned cs n) →
        (Selects numeral header length first last ↔ States numeral text bounds) := by
      intro numeral himp
      refine ⟨fun ⟨text', bounds', htext', hstates', _⟩ => ?_,
        fun hs => ⟨text, bounds, htext, hs, hcovers⟩⟩
      cases htext.unique htext'
      cases hstates.unique (hstates'.mono himp)
      exact hstates'
    rw [hbounds hnumeral, hbounds hcount, states_isNumeral_iff, states_isCount_iff] at hsame
    simpa only [hstates, true_and] using hsame
  · refine hread.congr fun first last => ⟨?_, ?_⟩
    · rintro ⟨text, bounds, htext, hstates, hcovers⟩
      obtain ⟨hsigned, hsize⟩ := states_isCount_iff.1 hstates
      have hplus := (h text bounds first last htext hsigned hcovers).2 hsize
      exact ⟨text, bounds, htext, states_isNumeral_iff.2 ⟨hsigned, hplus⟩, hcovers⟩
    · rintro ⟨text, bounds, htext, hstates, hcovers⟩
      obtain ⟨hsigned, hplus⟩ := states_isNumeral_iff.1 hstates
      have hsize := (h text bounds first last htext hsigned hcovers).1 hplus
      exact ⟨text, bounds, htext, states_isCount_iff.2 ⟨hsigned, hsize⟩, hcovers⟩

/-- The end of a range may lie beyond the body, but not at 2^64 or beyond: such a range is taken for
none at all. -/
theorem resolve_last_beyond_words :
    IsWindow IsNumeral "bytes=90-18446744073709551616" 100 ⟨90, 100, 100, true⟩
      ∧ resolve (some "bytes=90-18446744073709551616") 100 = full 100 := by
  have htext : IsFirstRange "bytes=90-18446744073709551616".toList
      "90-18446744073709551616".toList := ⟨[], by decide, by decide, .inl rfl⟩
  have hstates : States IsNumeral "90-18446744073709551616".toList
      (.span 90 (some 18446744073709551616)) :=
    @States.span _ "90".toList "18446744073709551616".toList _ _
      ⟨by decide, List.all_eq_true.1 (by decide), by decide⟩
      ⟨by decide, List.all_eq_true.1 (by decide), by decide⟩
  have hcovers : Covers 100 (.span 90 (some 18446744073709551616)) 90 99 :=
    .span (by decide) (by decide)
  exact ⟨.selected ⟨_, _, htext, hstates, hcovers⟩, by decide⟩

/-- A range with plus signs is no range, but is taken for one. -/
example : resolve (some "bytes=+5-+9") 100 = ⟨5, 10, 100, true⟩ := by decide

end ByteRange

end HttpContext
