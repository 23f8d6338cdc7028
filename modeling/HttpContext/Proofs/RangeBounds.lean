import HttpContext.Message.WordRange
import HttpContext.Proofs.RangeGrammar
/-!
Windows stay within their body and within 64-bit words, whatever the header says and however long
the body is, and nothing behind the first range of a header matters.
Main statement: `WordRange.resolve_within_words`.
-/
namespace HttpContext

namespace Text

/-- Trimming does not reach beyond a character that is no blank. -/
theorem exists_trim_append_cons {c : Char} (hc : isBlank c = false) (front back : List Char) :
    ∃ tail, trim (front ++ c :: back) = front.dropWhile isBlank ++ c :: tail := by
  have hkept : ∀ l r : List Char, (l ++ c :: r).dropWhile isBlank = l.dropWhile isBlank ++ c :: r := by
    intro l r
    have hr : (c :: r).dropWhile isBlank = c :: r := List.dropWhile_cons_of_neg (by simp [hc])
    rw [List.dropWhile_append, hr]
    split
    · rename_i hl
      rw [List.isEmpty_iff.1 hl, List.nil_append]
    · rfl
  refine ⟨(back.reverse.dropWhile isBlank).reverse, ?_⟩
  calc trim (front ++ c :: back)
      = ((front.dropWhile isBlank ++ c :: back).reverse.dropWhile isBlank).reverse := by
        rw [trim, hkept]
    _ = ((back.reverse ++ c :: (front.dropWhile isBlank).reverse).dropWhile isBlank).reverse := by
        rw [List.reverse_append, List.reverse_cons, List.append_assoc, List.singleton_append]
    _ = front.dropWhile isBlank ++ c :: (back.reverse.dropWhile isBlank).reverse := by
        rw [hkept, List.reverse_append, List.reverse_cons, List.reverse_reverse, List.append_assoc,
          List.singleton_append]

/-- What trimming takes off at the end is blank. -/
theorem exists_dropWhile_eq (cs : List Char) :
    ∃ blanks, cs.dropWhile isBlank = trim cs ++ blanks ∧ ∀ c ∈ blanks, isBlank c = true := by
  refine ⟨((cs.dropWhile isBlank).reverse.takeWhile isBlank).reverse, ?_,
    fun c hc => List.mem_takeWhile_imp (List.mem_reverse.1 hc)⟩
  rw [trim, ← List.reverse_append, List.takeWhile_append_dropWhile, List.reverse_reverse]

end Text

namespace ByteRange

open Text

/-! ### Behind the first range -/

/-- The text of the first range of a header. -/
def firstRange? (header : List Char) : Option (List Char) :=
  (after? "bytes=".toList (trim header)).map fun ranges => trim (ranges.takeWhile (· != ','))

theorem firstBounds?_eq (header : List Char) :
    firstBounds? header = (firstRange? header).bind fun text => (cut? '-' text).bind boundsBetween := by
  have hread : firstBounds? header = (after? "bytes=".toList (trim header)).bind fun ranges =>
      (cut? '-' (trim (ranges.takeWhile (· != ',')))).bind boundsBetween := rfl
  rw [hread, firstRange?]
  cases after? "bytes=".toList (trim header) <;> rfl

theorem takeWhile_append_comma (ranges more : List Char) :
    (ranges ++ ',' :: more).takeWhile (· != ',') = ranges.takeWhile (· != ',') := by
  induction ranges with
  | nil => rfl
  | cons c rest ih =>
    rw [List.cons_append, List.takeWhile_cons, List.takeWhile_cons, ih]

theorem trim_takeWhile_append_blanks {blanks : List Char} (h : ∀ c ∈ blanks, isBlank c = true)
    (ranges : List Char) :
    trim ((ranges ++ blanks).takeWhile (· != ',')) = trim (ranges.takeWhile (· != ',')) := by
  have hblanks : ∀ c ∈ blanks, (c != ',') = true := by
    intro c hc
    rw [bne_iff_ne]
    rintro rfl
    cases h ',' hc
  by_cases hcomma : ∀ c ∈ ranges, (c != ',') = true
  · rw [List.takeWhile_append_of_pos hcomma, List.takeWhile_eq_self_iff.2 hblanks,
      List.takeWhile_eq_self_iff.2 hcomma, trim_append_isBlank h]
  · -- the first range ends before the blanks
    rw [List.takeWhile_append, if_neg]
    intro hlength
    apply hcomma
    rw [← List.takeWhile_eq_self_iff]
    exact (List.takeWhile_prefix _).eq_of_length hlength

/-- The unit has no blank and no comma in it, so it is there in front of either or not at all. -/
theorem after?_append {text rest : List Char}
    (hrest : ∀ c ∈ rest.head?, isBlank c = true ∨ c = ',') :
    after? "bytes=".toList (text ++ rest)
      = (after? "bytes=".toList text).map fun ranges => ranges ++ rest := by
  have hunit : ∀ c ∈ "bytes=".toList, isBlank c = false ∧ c ≠ ',' := by simp [isBlank]
  by_cases hp : "bytes=".toList <+: text
  · obtain ⟨ranges, rfl⟩ := hp
    have htext : "bytes=".toList.isPrefixOf ("bytes=".toList ++ ranges) = true :=
      List.isPrefixOf_iff_prefix.2 (List.prefix_append _ _)
    have hall : "bytes=".toList.isPrefixOf ("bytes=".toList ++ ranges ++ rest) = true := by
      rw [List.append_assoc]
      exact List.isPrefixOf_iff_prefix.2 (List.prefix_append _ _)
    rw [after?, after?, if_pos hall, if_pos htext, List.append_assoc, List.drop_left, List.drop_left,
      Option.map_some]
  · have hnot : ¬ "bytes=".toList <+: text ++ rest := by
      intro hall
      rcases List.prefix_or_prefix_of_prefix hall (List.prefix_append text rest) with h | h
      · exact hp h
      · -- otherwise the first character of the rest belongs to the unit
        obtain ⟨tail, htail⟩ := h
        rw [← htail, List.prefix_append_right_inj] at hall
        cases tail with
        | nil => exact hp ⟨[], by rw [← htail, List.append_nil, List.append_nil]⟩
        | cons c tail =>
          obtain ⟨more, rfl⟩ := hall
          obtain ⟨hblank, hcomma⟩ := hunit c (by rw [← htail]; simp)
          rcases hrest c rfl with h | h
          · simp [hblank] at h
          · exact hcomma h
    have htext : ¬ "bytes=".toList.isPrefixOf text = true := mt List.isPrefixOf_iff_prefix.1 hp
    have hall : ¬ "bytes=".toList.isPrefixOf (text ++ rest) = true :=
      mt List.isPrefixOf_iff_prefix.1 hnot
    rw [after?, after?, if_neg hall, if_neg htext, Option.map_none]

/-- A header with a comma and anything else behind it has the same first range. -/
theorem firstRange?_append_comma (header more : List Char) :
    firstRange? (header ++ ',' :: more) = firstRange? header := by
  obtain ⟨blanks, hheader, hblanks⟩ := exists_dropWhile_eq header
  obtain ⟨tail, htail⟩ := exists_trim_append_cons (c := ',') (by decide) header more
  have htrim : trim (header ++ ',' :: more) = trim header ++ (blanks ++ ',' :: tail) := by
    rw [htail, hheader, List.append_assoc]
  have hhead : ∀ c ∈ (blanks ++ ',' :: tail).head?, isBlank c = true ∨ c = ',' := by
    intro c hc
    cases blanks with
    | nil => exact .inr (Option.some.inj hc).symm
    | cons d blanks =>
      obtain rfl : d = c := Option.some.inj hc
      exact .inl (hblanks d List.mem_cons_self)
  rw [firstRange?, firstRange?, htrim, after?_append hhead, Option.map_map]
  refine congrArg (Option.map · _) (funext fun ranges => ?_)
  rw [Function.comp_apply, ← List.append_assoc, takeWhile_append_comma,
    trim_takeWhile_append_blanks hblanks]

theorem firstBounds?_append_comma (header more : String) :
    firstBounds? (header ++ "," ++ more).toList = firstBounds? header.toList := by
  have htext : (header ++ "," ++ more).toList = header.toList ++ ',' :: more.toList := by
    rw [String.toList_append, String.toList_append, List.append_assoc]
    rfl
  rw [htext, firstBounds?_eq, firstRange?_append_comma, ← firstBounds?_eq]

/-- The numbers of a header are words. -/
theorem lt_size_of_firstBounds? {header : List Char} {bounds : Bounds}
    (h : firstBounds? header = some bounds) : ∀ n ∈ bounds.numbers, n < UInt64.size := by
  obtain ⟨text, _, hstates⟩ := firstBounds?_eq_some_iff.1 h
  exact (states_isCount_iff.1 hstates).2

theorem length_resolve (header : Option String) (length : Nat) :
    (resolve header length).length = length := by
  unfold resolve
  split
  · rfl
  · rename_i bounds _
    split
    · rfl
    · cases bounds <;> simp only [Bounds.window] <;> split <;> rfl

/-- Whatever a header says of whatever body, its window lies in it, and it is all of the body unless
it is partial and not empty. -/
theorem bounds_resolve (header : Option String) (length : Nat) :
    (resolve header length).start ≤ (resolve header length).stop
      ∧ (resolve header length).stop ≤ length
      ∧ ((resolve header length).isPartial = true →
        (resolve header length).start < (resolve header length).stop)
      ∧ ((resolve header length).isPartial = false → resolve header length = full length) := by
  rcases Nat.eq_zero_or_pos length with rfl | hl
  · rw [resolve_zero]
    exact ⟨Nat.le_refl 0, Nat.le_refl 0, nofun, fun _ => rfl⟩
  · have hfits := fits_resolve hl header
    exact ⟨Nat.le_of_lt hfits.start_lt, hfits.stop_le, fun _ => hfits.start_lt, hfits.whole⟩

end ByteRange

namespace WordRange

open ByteRange (Bounds)

/-- The last position of a span is the same in words. -/
theorem toNat_lastWithin (greatest : UInt64) {last : Option Nat}
    (hn : ∀ n ∈ last, n < UInt64.size) :
    (lastWithin greatest (last.map .ofNat)).toNat
      = (last.map (min · greatest.toNat)).getD greatest.toNat := by
  cases last with
  | none => rfl
  | some last =>
    have hlast : (UInt64.ofNat last).toNat = last := UInt64.toNat_ofNat_of_lt' (hn last rfl)
    simp only [Option.map_some, Option.getD_some, lastWithin, UInt64.le_iff_toNat_le, hlast]
    split
    · rename_i hle
      rw [hlast, Nat.min_eq_left hle]
    · rename_i hle
      rw [Nat.min_eq_right (by omega)]

theorem lastWithin_le (greatest : UInt64) (last : Option UInt64) :
    (lastWithin greatest last).toNat ≤ greatest.toNat := by
  cases last with
  | none => exact Nat.le_refl _
  | some last =>
    simp only [lastWithin]
    split
    · rename_i hle
      exact UInt64.le_iff_toNat_le.1 hle
    · exact Nat.le_refl _

theorem select?_spec {length : UInt64} (hl : length ≠ 0) {bounds : Bounds}
    (hn : ∀ n ∈ bounds.numbers, n < UInt64.size) :
    ∃ r, select? length bounds.words = some r ∧ r.toByteRange = bounds.window length.toNat := by
  have hpos : 0 < length.toNat := by
    rw [Nat.pos_iff_ne_zero, ← UInt64.toNat_zero]
    exact mt UInt64.toNat_inj.1 hl
  have hsize := length.toNat_lt_size
  obtain ⟨greatest, hgreatest, hmax⟩ := Word.exists_sub? (a := length) (b := 1) hpos
  rw [UInt64.toNat_one] at hmax
  cases bounds with
  | span first last =>
    have hfirst : (UInt64.ofNat first).toNat = first :=
      UInt64.toNat_ofNat_of_lt' (hn first List.mem_cons_self)
    have hnumbers : ∀ n ∈ last, n < UInt64.size := fun n hm =>
      hn n (List.mem_cons_of_mem _ (Option.mem_toList.2 hm))
    have hlast := toNat_lastWithin greatest hnumbers
    have hle := lastWithin_le greatest (last.map .ofNat)
    rw [hmax] at hlast hle
    simp only [select?, Bounds.words, hgreatest, Option.bind_eq_bind, Option.bind_some,
      Bounds.window, ← hlast, UInt64.lt_iff_toNat_lt, hfirst, hmax, Bool.or_eq_true,
      decide_eq_true_eq]
    generalize lastWithin greatest (last.map .ofNat) = l at hle
    by_cases hout : length.toNat - 1 < first
    · rw [if_pos hout, if_pos (.inl (by omega))]
      exact ⟨full length, rfl, rfl⟩
    by_cases hback : l.toNat < first
    · rw [if_neg hout, if_pos hback, if_pos (.inr hback)]
      exact ⟨full length, rfl, rfl⟩
    · -- a last position within the body leaves room for one more
      obtain ⟨stop, hstop, hsum⟩ := Word.exists_add? (a := l) (b := 1) (by
        rw [UInt64.toNat_one]
        omega)
      rw [UInt64.toNat_one] at hsum
      have hin : ¬ (length.toNat ≤ first ∨ l.toNat < first) := by omega
      rw [if_neg hout, if_neg hback, if_neg hin, hstop, Option.bind_some]
      refine ⟨_, rfl, ?_⟩
      rw [toByteRange, hfirst, hsum]
  | suffix count =>
    have hcount : (UInt64.ofNat count).toNat = count :=
      UInt64.toNat_ofNat_of_lt' (hn count List.mem_cons_self)
    have hzero : UInt64.ofNat count = 0 ↔ count = 0 := by
      rw [← UInt64.toNat_inj, hcount, UInt64.toNat_zero]
    obtain ⟨stop, hstop, hsum⟩ := Word.exists_add? (a := greatest) (b := 1) (by
      rw [UInt64.toNat_one]
      omega)
    rw [UInt64.toNat_one] at hsum
    simp only [select?, Bounds.words, hgreatest, Option.bind_eq_bind, Option.bind_some,
      Bounds.window, hzero]
    split
    · exact ⟨full length, rfl, rfl⟩
    · rw [hstop, Option.bind_some]
      refine ⟨_, rfl, ?_⟩
      have hall : stop.toNat = length.toNat := by omega
      rw [toByteRange, Word.toNat_monus, hcount, hall]

theorem resolve?_spec (header : Option String) (length : UInt64) :
    ∃ r, resolve? header length = some r ∧ r.toByteRange = ByteRange.resolve header length.toNat := by
  unfold resolve? ByteRange.resolve
  cases hb : header.bind fun value => ByteRange.firstBounds? value.toList with
  | none => exact ⟨full length, rfl, rfl⟩
  | some bounds =>
    obtain ⟨value, _, hvalue⟩ := Option.bind_eq_some_iff.1 hb
    have hzero : length.toNat = 0 ↔ length = 0 := by
      rw [← UInt64.toNat_inj, UInt64.toNat_zero]
    simp only [hzero]
    split
    · exact ⟨full length, rfl, rfl⟩
    · rename_i hl
      exact select?_spec hl (ByteRange.lt_size_of_firstBounds? hvalue)

/-- Whatever a header says of a body of whatever length, its window is reckoned without leaving the
64-bit words, and it is the window of `ByteRange.resolve`. It lies in the body, it is not empty when
it is partial and all of the body when it is not. Its size and, unless it is empty, its last position
are words too. A comma with anything behind it makes no difference. -/
theorem resolve_within_words (header : Option String) (length : UInt64) (more : String) :
    ∃ r, resolve? header length = some r
      ∧ r.toByteRange = ByteRange.resolve header length.toNat
      ∧ resolve? (header.map (· ++ "," ++ more)) length = some r
      ∧ r.length = length ∧ r.start ≤ r.stop ∧ r.stop ≤ length
      ∧ (r.isPartial = true → r.start < r.stop)
      ∧ (r.isPartial = false → r.start = 0 ∧ r.stop = length)
      ∧ (∃ window, r.window? = some window ∧ window.toNat = r.toByteRange.window
        ∧ Word.add? r.start window = some r.stop)
      ∧ (r.start < r.stop → r.contentRange? = some r.toByteRange.contentRange) := by
  obtain ⟨r, hr, hrange⟩ := resolve?_spec header length
  obtain ⟨hle, hstop, hpartial, hwhole⟩ := ByteRange.bounds_resolve header length.toNat
  rw [← hrange] at hle hstop hpartial hwhole
  have hlength : r.length = length := by
    apply UInt64.toNat_inj.1
    exact (congrArg ByteRange.length hrange).trans (ByteRange.length_resolve header length.toNat)
  have hmore : resolve? (header.map (· ++ "," ++ more)) length = resolve? header length := by
    unfold resolve?
    cases header with
    | none => rfl
    | some value =>
      simp only [Option.map_some, Option.bind_some, ByteRange.firstBounds?_append_comma]
  obtain ⟨window, hwindow, hsize⟩ := Word.exists_sub? (a := r.stop) (b := r.start) hle
  refine ⟨r, hr, hrange, hmore.trans hr, hlength, UInt64.le_iff_toNat_le.2 hle,
    UInt64.le_iff_toNat_le.2 hstop, fun hp => UInt64.lt_iff_toNat_lt.2 (hpartial hp), fun hp => ?_,
    ⟨window, hwindow, hsize, ?_⟩, fun hlt => ?_⟩
  · have hfull := hwhole hp
    exact ⟨UInt64.toNat_inj.1 (congrArg ByteRange.start hfull),
      UInt64.toNat_inj.1 (congrArg ByteRange.stop hfull)⟩
  · rw [Word.add?_eq_some_iff, hsize]
    exact Nat.add_sub_of_le hle
  · -- behind the first byte there is a last one
    rw [UInt64.lt_iff_toNat_lt] at hlt
    obtain ⟨last, hlast, hposition⟩ := Word.exists_sub? (a := r.stop) (b := 1) (by
      rw [UInt64.toNat_one]
      omega)
    rw [UInt64.toNat_one] at hposition
    rw [contentRange?, hlast, Option.bind_eq_bind, Option.bind_some, ByteRange.contentRange]
    simp only [toByteRange, ← hposition]
    rfl

end WordRange

end HttpContext
