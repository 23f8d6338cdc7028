import HttpContext.Bytes
import HttpContext.Text.Basic
import HttpContext.Text.Utf8
import Mathlib.Data.List.Infix
/-!
Text in lines, and the blank line behind the last of them. A carriage return or a line feed of its
own breaks no line: only the pair CR LF does. Main statements: `Bytes.cutAt?_block` and
`Utf8.cutAt?_encode`, the blank line that ends a run of lines is the first one, when no line is
empty.
-/
namespace HttpContext

/-! ### Lines of text -/

namespace Text

/-- There is no pair CR LF in the text. -/
def IsOneLine (cs : List Char) : Prop := ¬ ['\r', '\n'] <:+: cs

instance (cs : List Char) : Decidable (IsOneLine cs) :=
  inferInstanceAs (Decidable (¬ _))

/-- A header line as it stands in a head. -/
def headerLine (name : String) (value : List Char) : List Char :=
  name.toList ++ ':' :: ' ' :: value

theorem cut?_headerLine {name : String} (h : ':' ∉ name.toList) (value : List Char) :
    cut? ':' (headerLine name value) = some (name.toList, ' ' :: value) :=
  cut?_append h _

theorem headerLine_ne_nil (name : String) (value : List Char) : headerLine name value ≠ [] :=
  List.append_ne_nil_of_right_ne_nil _ (List.cons_ne_nil _ _)

theorem isOneLine_of_not_mem {cs : List Char} (h : '\r' ∉ cs) : IsOneLine cs :=
  fun hpair => h (hpair.subset List.mem_cons_self)

theorem isOneLine_cons {c : Char} {cs : List Char} :
    IsOneLine (c :: cs) ↔ ¬ ['\r', '\n'] <+: c :: cs ∧ IsOneLine cs := by
  rw [IsOneLine, IsOneLine, List.infix_cons_iff, not_or]

theorem lines_cons {c : Char} {cs line : List Char} {more : List (List Char)}
    (hc : ¬ ['\r', '\n'] <+: c :: cs) (h : lines cs = line :: more) :
    lines (c :: cs) = (c :: line) :: more := by
  rw [lines]
  · simp only [h]
  · rintro rest rfl rfl
    exact hc (List.prefix_append _ rest)

theorem lines_of_isOneLine {cs : List Char} (h : IsOneLine cs) : lines cs = [cs] := by
  induction cs with
  | nil => rfl
  | cons c rest ih =>
    obtain ⟨hc, hrest⟩ := isOneLine_cons.1 h
    exact lines_cons hc (ih hrest)

/-- A line ends at the first pair CR LF. -/
theorem lines_append {line : List Char} (h : IsOneLine line) (rest : List Char) :
    lines (line ++ '\r' :: '\n' :: rest) = line :: lines rest := by
  induction line with
  | nil => rfl
  | cons c more ih =>
    obtain ⟨hc, hmore⟩ := isOneLine_cons.1 h
    refine lines_cons (fun hp => hc ?_) (ih hmore)
    -- the pair does not begin with the end of this line and end in the break behind it
    cases more with
    | nil => simp at hp
    | cons d tail => simpa using hp

/-- The lines of a text that is written in lines. -/
theorem lines_flatMap {first : List Char} (hfirst : IsOneLine first) {rest : List (List Char)}
    (hrest : ∀ line ∈ rest, IsOneLine line) :
    lines (first ++ rest.flatMap fun line => '\r' :: '\n' :: line) = first :: rest := by
  induction rest generalizing first with
  | nil => rw [List.flatMap_nil, List.append_nil, lines_of_isOneLine hfirst]
  | cons next rest ih =>
    rw [List.flatMap_cons, List.cons_append, List.cons_append, lines_append hfirst,
      ih (hrest next List.mem_cons_self) fun line hl => hrest line (List.mem_cons_of_mem next hl)]

/-- The first line is what the text begins with. -/
theorem prefix_of_lines {cs line : List Char} {more : List (List Char)}
    (h : lines cs = line :: more) : line <+: cs := by
  fun_induction lines cs generalizing line more with
  | case1 =>
    obtain ⟨rfl, _⟩ := List.cons.inj h
    exact List.prefix_rfl
  | case2 rest ih =>
    obtain ⟨rfl, _⟩ := List.cons.inj h
    exact List.nil_prefix
  | case3 c rest _ _ _ =>
    obtain ⟨rfl, _⟩ := List.cons.inj h
    exact List.prefix_append [c] rest
  | case4 c rest _ next _ hlines ih =>
    obtain ⟨rfl, _⟩ := List.cons.inj h
    exact List.cons_prefix_cons.2 ⟨rfl, ih hlines⟩

theorem isOneLine_of_mem_lines {cs line : List Char} (h : line ∈ lines cs) : IsOneLine line := by
  have hnil : IsOneLine [] := by decide
  fun_induction lines cs generalizing line with
  | case1 =>
    obtain rfl := List.mem_singleton.1 h
    exact hnil
  | case2 rest ih =>
    rcases List.mem_cons.1 h with rfl | h
    · exact hnil
    · exact ih h
  | case3 c rest _ _ _ =>
    obtain rfl := List.mem_singleton.1 h
    simp [IsOneLine, List.infix_cons_iff]
  | case4 c rest hpair next more hlines ih =>
    rw [hlines] at ih
    rcases List.mem_cons.1 h with rfl | h
    · -- a pair at the front of the line would be one at the front of the text
      refine isOneLine_cons.2 ⟨fun hp => ?_, ih List.mem_cons_self⟩
      obtain ⟨tail, htail⟩ := hp.trans (List.cons_prefix_cons.2 ⟨rfl, prefix_of_lines hlines⟩)
      obtain ⟨hc, hrest⟩ := List.cons.inj htail
      exact hpair tail hc.symm hrest.symm
    · exact ih (List.mem_cons_of_mem next h)

end Text

/-! ### Lines of bytes -/

namespace Bytes

/-- There is no pair CR LF in the bytes. -/
def IsOneLine (bytes : Bytes) : Prop := ¬ crlf <:+: bytes

theorem isOneLine_of_not_mem {bytes : Bytes} (h : 13 ∉ bytes) : IsOneLine bytes :=
  fun hpair => h (hpair.subset List.mem_cons_self)

theorem isOneLine_cons {b : UInt8} {bytes : Bytes} :
    IsOneLine (b :: bytes) ↔ ¬ crlf <+: b :: bytes ∧ IsOneLine bytes := by
  rw [IsOneLine, IsOneLine, List.infix_cons_iff, not_or]

theorem IsOneLine.append {front rest : Bytes} (hfront : 13 ∉ front) (h : IsOneLine rest) :
    IsOneLine (front ++ rest) := by
  induction front with
  | nil => exact h
  | cons b front ih =>
    refine isOneLine_cons.2 ⟨fun hp => hfront ?_, ih fun hm => hfront (List.mem_cons_of_mem b hm)⟩
    exact (List.cons_prefix_cons.1 hp).1 ▸ List.mem_cons_self

/-- A line that is not empty does not begin with a break, not even with half of the break that
follows it. -/
theorem IsOneLine.not_prefix {line : Bytes} (h : IsOneLine line) (hne : line ≠ [])
    (rest : Bytes) : ¬ crlf <+: line ++ (crlf ++ rest) := by
  obtain ⟨b, tail, rfl⟩ := List.exists_cons_of_ne_nil hne
  intro hp
  refine (isOneLine_cons.1 h).1 ?_
  cases tail with
  | nil => simp [crlf] at hp
  | cons c more => simpa [crlf] using hp

/-- Where no blank line begins, it is looked for further on. -/
theorem cutAt?_cons {b : UInt8} {bytes : Bytes} (h : ¬ blankLine <+: b :: bytes) :
    cutAt? blankLine (b :: bytes)
      = (cutAt? blankLine bytes).map fun (before, after) => (b :: before, after) := by
  have hno : blankLine.isPrefixOf (b :: bytes) = false := by
    rw [← Bool.not_eq_true, List.isPrefixOf_iff_prefix]
    exact h
  rw [cutAt?, hno]
  rfl

/-- A blank line is looked for behind a line, where its break begins. -/
theorem IsOneLine.cutAt?_append {line : Bytes} (h : IsOneLine line) (rest : Bytes) :
    cutAt? blankLine (line ++ (crlf ++ rest))
      = (cutAt? blankLine (crlf ++ rest)).map fun (before, after) => (line ++ before, after) := by
  induction line with
  | nil => simp
  | cons b line ih =>
    have hbegin : ¬ blankLine <+: b :: (line ++ (crlf ++ rest)) := fun hp =>
      h.not_prefix (List.cons_ne_nil b line) rest ((List.prefix_append crlf crlf).trans hp)
    rw [List.cons_append, cutAt?_cons hbegin, ih (isOneLine_cons.1 h).2, Option.map_map]
    rfl

/-- A line break is no blank line when no other break follows it. -/
theorem cutAt?_break {rest : Bytes} (h : ¬ crlf <+: rest) :
    cutAt? blankLine (crlf ++ rest)
      = (cutAt? blankLine rest).map fun (before, after) => (crlf ++ before, after) := by
  have hreturn : ¬ blankLine <+: 13 :: 10 :: rest := fun hp => h (by simpa [blankLine, crlf] using hp)
  have hfeed : ¬ blankLine <+: 10 :: rest := by simp [blankLine]
  calc cutAt? blankLine (crlf ++ rest)
      = (cutAt? blankLine (10 :: rest)).map fun (before, after) => (13 :: before, after) :=
        cutAt?_cons hreturn
    _ = _ := by
        rw [cutAt?_cons hfeed, Option.map_map]
        rfl

/-- Lines, and the blank line after the last of them. -/
def block (lines : List Bytes) : Bytes := lines.flatMap (· ++ crlf) ++ crlf

/-- The blank line that ends a block is the first one in it, if no line is blank or broken. -/
theorem cutAt?_block {lines : List Bytes} (hne : lines ≠ [])
    (h : ∀ line ∈ lines, line ≠ [] ∧ IsOneLine line) (body : Bytes) :
    ∃ front, front ++ blankLine = block lines
      ∧ cutAt? blankLine (block lines ++ body) = some (front, body) := by
  induction lines with
  | nil => exact absurd rfl hne
  | cons line rest ih =>
    obtain ⟨_, hline⟩ := h line List.mem_cons_self
    have hblock : block (line :: rest) = line ++ (crlf ++ block rest) := by
      simp only [block, List.flatMap_cons, List.append_assoc]
    rw [hblock, List.append_assoc, List.append_assoc, hline.cutAt?_append]
    cases rest with
    | nil => exact ⟨line, rfl, by simp [block, cutAt?, blankLine, crlf, List.isPrefixOf]⟩
    | cons next more =>
      obtain ⟨front, hfront, hfound⟩ := ih (List.cons_ne_nil next more)
        fun l hl => h l (List.mem_cons_of_mem line hl)
      -- the next line begins after the break, so the blank line does not begin there
      obtain ⟨hfull, hnext⟩ := h next (List.mem_cons_of_mem line List.mem_cons_self)
      have hopen : ¬ crlf <+: block (next :: more) ++ body := by
        simp only [block, List.flatMap_cons, List.append_assoc]
        exact hnext.not_prefix hfull _
      refine ⟨line ++ (crlf ++ front), ?_, ?_⟩
      · rw [List.append_assoc, List.append_assoc, hfront]
      · rw [cutAt?_break hopen, hfound]
        rfl

/-- A block that is cut short has no blank line in it. -/
theorem cutAt?_of_prefix_block {lines : List Bytes} (hne : lines ≠ [])
    (h : ∀ line ∈ lines, line ≠ [] ∧ IsOneLine line) {bytes : Bytes} (hp : bytes <+: block lines)
    (hshort : bytes ≠ block lines) : cutAt? blankLine bytes = none := by
  obtain ⟨missing, hmissing⟩ := hp
  cases hc : cutAt? blankLine bytes with
  | none => rfl
  | some found =>
    -- the blank line would be found in the whole block, with the missing bytes behind it
    obtain ⟨before, after⟩ := found
    obtain ⟨front, _, hwhole⟩ := cutAt?_block hne h []
    rw [List.append_nil, ← hmissing, Bytes.cutAt?_append hc missing] at hwhole
    have hnil : after ++ missing = [] := congrArg Prod.snd (Option.some.inj hwhole)
    rw [(List.append_eq_nil_iff.1 hnil).2, List.append_nil] at hmissing
    exact absurd hmissing hshort

end Bytes

/-! ### Lines of text in bytes -/

namespace Utf8

/-- A byte of ASCII stands for a character of its own. -/
theorem toNat_of_mem_encodeChar {c : Char} {b : UInt8} (hb : b.toNat < 128)
    (h : b ∈ String.utf8EncodeChar c) : c.toNat = b.toNat := by
  have hof : ∀ n : Nat, (UInt8.ofNat n).toNat = n % 256 := fun n => UInt8.toNat_ofNat'
  have hval : c.val.toNat = c.toNat := rfl
  simp only [String.utf8EncodeChar] at h
  split at h
  · have heq := congrArg UInt8.toNat (List.mem_singleton.1 h)
    rw [hof] at heq
    omega
  · -- in a character of several bytes each of them is 128 or more
    exfalso
    split at h
    · simp only [List.mem_cons, List.not_mem_nil, or_false] at h
      rcases h with rfl | rfl <;> rw [hof] at hb <;> omega
    · split at h
      · simp only [List.mem_cons, List.not_mem_nil, or_false] at h
        rcases h with rfl | rfl | rfl <;> rw [hof] at hb <;> omega
      · simp only [List.mem_cons, List.not_mem_nil, or_false] at h
        rcases h with rfl | rfl | rfl | rfl <;> rw [hof] at hb <;> omega

theorem not_mem_encode {text : String} (h : '\r' ∉ text.toList) : 13 ∉ encode text := by
  intro hm
  obtain ⟨c, hc, hb⟩ := List.mem_flatMap.1 hm
  have hreturn : c = '\r' := Char.toNat_inj.1 (toNat_of_mem_encodeChar (by decide) hb)
  exact h (hreturn ▸ hc)

theorem encode_injective : Function.Injective encode := by
  intro text other h
  have hsame : decode (encode text) = decode (encode other) := congrArg decode h
  rw [decode_encode, decode_encode] at hsame
  exact Except.ok.inj hsame

theorem encode_ne_nil {text : String} (h : text ≠ "") : encode text ≠ [] :=
  fun hnil => h (encode_injective (hnil.trans encode_empty.symm))

theorem isOneLine_flatMap {cs : List Char} (h : Text.IsOneLine cs) :
    Bytes.IsOneLine (cs.flatMap String.utf8EncodeChar) := by
  induction cs with
  | nil => exact Bytes.isOneLine_of_not_mem List.not_mem_nil
  | cons c rest ih =>
    obtain ⟨hc, hrest⟩ := Text.isOneLine_cons.1 h
    rw [List.flatMap_cons]
    by_cases hreturn : c = '\r'
    · -- the byte of a line feed would come from a line feed
      subst hreturn
      refine Bytes.isOneLine_cons.2 ⟨fun hp => hc ?_, ih hrest⟩
      obtain ⟨_, hfeed⟩ := List.cons_prefix_cons.1 hp
      cases rest with
      | nil => simp at hfeed
      | cons d more =>
        obtain ⟨b, bytes, hd⟩ := List.exists_cons_of_ne_nil (String.utf8EncodeChar_ne_nil (c := d))
        rw [List.flatMap_cons, hd] at hfeed
        have hb : (10 : UInt8) = b := (List.cons_prefix_cons.1 hfeed).1
        have hmem : (10 : UInt8) ∈ String.utf8EncodeChar d := hd ▸ hb ▸ List.mem_cons_self
        have hnewline : d = '\n' :=
          Char.toNat_inj.1 (toNat_of_mem_encodeChar (by decide) hmem)
        exact hnewline ▸ List.prefix_append _ more
    · refine (ih hrest).append fun hm => hreturn ?_
      exact Char.toNat_inj.1 (toNat_of_mem_encodeChar (by decide) hm)

/-- In bytes, the lines of a text are its lines, each with its line break. -/
theorem flatMap_lines (cs : List Char) :
    cs.flatMap String.utf8EncodeChar ++ Bytes.crlf
      = (Text.lines cs).flatMap fun line => line.flatMap String.utf8EncodeChar ++ Bytes.crlf := by
  fun_induction Text.lines cs with
  | case1 => rfl
  | case2 rest ih =>
    have hbreak : String.utf8EncodeChar '\r' ++ String.utf8EncodeChar '\n' = Bytes.crlf := rfl
    calc _ = Bytes.crlf ++ (rest.flatMap String.utf8EncodeChar ++ Bytes.crlf) := by
          simp only [List.flatMap_cons, ← hbreak, List.append_assoc]
      _ = _ := by rw [ih, List.flatMap_cons]; rfl
  | case3 c rest _ hlines ih =>
    rw [hlines] at ih
    simp [Bytes.crlf] at ih
  | case4 c rest _ line more hlines ih =>
    rw [hlines] at ih
    simp only [List.flatMap_cons, List.append_assoc] at ih ⊢
    rw [ih]

/-- The blank line behind a text that has no empty line is the first one. -/
theorem cutAt?_encode {text : String} (h : [] ∉ Text.lines text.toList) (rest : Bytes) :
    Bytes.cutAt? Bytes.blankLine (encode text ++ (Bytes.blankLine ++ rest))
      = some (encode text, rest) := by
  let lines := (Text.lines text.toList).map fun line => line.flatMap String.utf8EncodeChar
  have hblock : encode text ++ Bytes.blankLine = Bytes.block lines := by
    rw [Bytes.block, List.flatMap_map, ← flatMap_lines, List.append_assoc]
    rfl
  have hne : lines ≠ [] := by
    intro hnil
    have hshort := congrArg List.length hblock
    simp [hnil, Bytes.block, Bytes.blankLine, Bytes.crlf] at hshort
  have hlines : ∀ line ∈ lines, line ≠ [] ∧ Bytes.IsOneLine line := by
    intro bytes hm
    obtain ⟨line, hline, rfl⟩ := List.mem_map.1 hm
    obtain ⟨c, more, rfl⟩ := List.exists_cons_of_ne_nil fun hnil => h (hnil ▸ hline)
    exact ⟨List.append_ne_nil_of_left_ne_nil String.utf8EncodeChar_ne_nil _,
      isOneLine_flatMap (Text.isOneLine_of_mem_lines hline)⟩
  obtain ⟨front, hfront, hcut⟩ := Bytes.cutAt?_block hne hlines rest
  rw [← hblock] at hfront hcut
  rw [List.append_cancel_right hfront] at hcut
  rwa [List.append_assoc] at hcut

end Utf8

end HttpContext
