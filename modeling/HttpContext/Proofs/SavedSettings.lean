import HttpContext.Config.Document
import HttpContext.Text.Basic
import HttpContext.Text.Utf8
import Mathlib.Data.List.DropRight
import Mathlib.Tactic.Tauto
/-!
Settings that were written to a document are read back. A reader that stands in front of a printed
text or number takes just that and leaves what follows; so does a member that is read where one
was written, and a document that states some of the settings, in any order, gives these and the
defaults for the others.
-/
namespace HttpContext

namespace Json

variable {α β : Type} {reader : Reader α} {a : α} {cs rest : List Char}

/-- What a reader gives is what the next one goes on with. -/
theorem run_bind_of_ok (h : reader.run cs = .ok (a, rest)) (next : α → Reader β) :
    (reader >>= next).run cs = (next a).run rest := by
  rw [StateT.run_bind, h]
  rfl

theorem run_peek? (cs : List Char) : peek?.run cs = .ok (cs.head?, cs) := rfl

theorem run_front {c : Char} (h : cs.dropWhile isBlank = c :: rest) :
    front.run cs = .ok (c, c :: rest) := by
  have hfront : front?.run cs = .ok (some c, c :: rest) := by
    change Except.ok ((cs.dropWhile isBlank).head?, cs.dropWhile isBlank) = _
    rw [h]
    rfl
  rw [front, run_bind_of_ok hfront]
  rfl

theorem run_expect {mark : Char} (h : cs.dropWhile isBlank = mark :: rest) :
    (expect mark).run cs = .ok ((), rest) := by
  rw [expect, run_bind_of_ok (run_front h), if_pos (beq_self_eq_true mark)]
  rfl

/-! ### Numbers -/

/-- What follows is no part of a number. -/
def EndsNumber (rest : List Char) : Prop :=
  ∀ c ∈ rest.head?, c.isDigit = false ∧ c ≠ '.' ∧ c ≠ 'e' ∧ c ≠ 'E'

theorem run_digits (hcs : ∀ c ∈ cs, c.isDigit = true) (hrest : EndsNumber rest) :
    digits.run (cs ++ rest) = .ok (cs, rest) := by
  have hnone : rest.takeWhile Char.isDigit = [] ∧ rest.dropWhile Char.isDigit = rest := by
    cases rest with
    | nil => exact ⟨rfl, rfl⟩
    | cons c rest =>
      have hc := (hrest c rfl).1
      exact ⟨List.takeWhile_cons_of_neg (by simp [hc]), List.dropWhile_cons_of_neg (by simp [hc])⟩
  rw [digits, StateT.run_modifyGet, List.takeWhile_append_of_pos hcs,
    List.dropWhile_append_of_pos hcs, hnone.1, hnone.2, List.append_nil]
  rfl

theorem le_ofDigitChars (n : Nat) (cs : List Char) : n ≤ Nat.ofDigitChars 10 cs n := by
  induction cs generalizing n with
  | nil => exact Nat.le_refl n
  | cons c cs ih =>
    rw [Nat.ofDigitChars_cons]
    exact Nat.le_trans (by omega) (ih _)

/-- No digit is lost as long as the number fits. -/
theorem gather_of_lt {n : Nat} (h : Nat.ofDigitChars 10 cs n < UInt64.size) :
    gather n cs = (Nat.ofDigitChars 10 cs n, 0) := by
  induction cs generalizing n with
  | nil => rfl
  | cons c cs ih =>
    have hnext : 10 * n + (c.toNat - '0'.toNat) = n * 10 + (c.toNat - 48) := by
      rw [Nat.mul_comm]
      rfl
    rw [Nat.ofDigitChars_cons, hnext] at h ⊢
    have hlt : n * 10 + (c.toNat - 48) < UInt64.size := Nat.lt_of_le_of_lt (le_ofDigitChars _ cs) h
    simp only [gather]
    rw [if_pos hlt, ih h]

theorem head?_toDigits {n : Nat} (h : 0 < n) : (Nat.toDigits 10 n).head? ≠ some '0' := by
  induction n using Nat.strongRecOn with
  | ind n ih =>
    rcases Nat.lt_or_ge n 10 with hlt | hle
    · rw [Nat.toDigits_of_lt_base hlt]
      have : ∀ n < 10, 0 < n → [n.digitChar].head? ≠ some '0' := by decide
      exact this n hlt h
    · rw [Nat.toDigits_of_base_le (by decide) hle,
        List.head?_append_of_ne_nil _ Nat.toDigits_ne_nil]
      exact ih (n / 10) (by omega) (by omega)

/-- A printed number has no zero in front of other digits. -/
theorem toDigits_ne_zero_cons (n : Nat) (d : Char) (ds : List Char) :
    Nat.toDigits 10 n ≠ '0' :: d :: ds := by
  intro h
  rcases Nat.eq_zero_or_pos n with rfl | hpos
  · rw [Nat.toDigits_of_lt_base (by decide)] at h
    cases h
  · exact head?_toDigits hpos (by rw [h]; rfl)

theorem run_wholeDigits {n : Nat} (missing : JsonError) (hrest : EndsNumber rest) :
    (wholeDigits missing).run ((toString n).toList ++ rest) = .ok ((toString n).toList, rest) := by
  rw [wholeDigits, run_bind_of_ok (run_digits (fun _ => Text.isDigit_of_mem_toString) hrest),
    Nat.toString_eq_repr, Nat.toList_repr]
  split
  · rename_i h
    exact absurd h Nat.toDigits_ne_nil
  · rename_i h
    exact absurd h (toDigits_ne_zero_cons n _ _)
  · rfl

theorem run_fraction (missing : JsonError) (hrest : EndsNumber rest) :
    (fraction missing).run rest = .ok ([], rest) := by
  have hpoint : rest.head? ≠ some '.' := fun h => (hrest '.' h).2.1 rfl
  rw [fraction, run_bind_of_ok (run_peek? rest), if_pos (by simpa using hpoint)]
  rfl

theorem run_exponent (missing : JsonError) (hrest : EndsNumber rest) :
    (exponent missing).run rest = .ok (none, rest) := by
  rw [exponent, run_bind_of_ok (run_peek? rest)]
  split
  · rename_i h
    exact absurd rfl (hrest 'e' h).2.2.1
  · rename_i h
    exact absurd rfl (hrest 'E' h).2.2.2
  · rfl

theorem run_unsigned {n : Nat} (hn : n < UInt64.size) (hrest : EndsNumber rest) :
    unsigned.run ((toString n).toList ++ rest) = .ok (some n, rest) := by
  have hvalue : Nat.ofDigitChars 10 (toString n).toList 0 = n := by
    rw [Nat.toString_eq_repr, Nat.toList_repr, Nat.ofDigitChars_ten_toDigits]
  have hgather := gather_of_lt (hvalue.symm ▸ hn)
  rw [unsigned, run_bind_of_ok (run_wholeDigits _ hrest), run_bind_of_ok (run_fraction _ hrest),
    run_bind_of_ok (run_exponent _ hrest), hgather, hvalue]
  rfl

theorem exists_toString_eq_cons (n : Nat) :
    ∃ c others, (toString n).toList = c :: others ∧ c.isDigit = true := by
  obtain ⟨c, others, h⟩ : ∃ c others, (toString n).toList = c :: others := by
    rw [Nat.toString_eq_repr, Nat.toList_repr]
    exact List.exists_cons_of_ne_nil Nat.toDigits_ne_nil
  exact ⟨c, others, h, Text.isDigit_of_mem_toString (h ▸ List.mem_cons_self)⟩

theorem isBlank_of_isDigit {c : Char} (h : c.isDigit = true) : isBlank c = false := by
  by_contra hblank
  simp only [isBlank, Bool.not_eq_false, Bool.or_eq_true, beq_iff_eq] at hblank
  obtain ((rfl | rfl) | rfl) | rfl := hblank <;> cases h

theorem run_natural {n : Nat} (hn : n < UInt64.size) (hrest : EndsNumber rest)
    (h : cs.dropWhile isBlank = (toString n).toList ++ rest) :
    natural.run cs = .ok (n, rest) := by
  obtain ⟨c, others, hfront, hdigit⟩ := exists_toString_eq_cons n
  have hcs : cs.dropWhile isBlank = c :: (others ++ rest) := by rw [h, hfront, List.cons_append]
  rw [natural, run_bind_of_ok (run_front hcs), if_pos hdigit, ← hcs, h,
    run_bind_of_ok (run_unsigned hn hrest)]
  rfl

/-! ### Texts -/

/-- How a character stands between quotes: as itself, or as a code unit. -/
def pieceOf (c : Char) : Piece :=
  if c.toNat < 32 ∧ c ∉ ['\x08', '\x0c', '\n', '\r', '\t'] then .unit c.toNat else .char c

theorem unit?_hexDigit :
    ∀ n < 32, unit? ['0', '0', hexDigit (n / 16), hexDigit (n % 16)] = some n := by
  decide

theorem pieces_cons {c : Char} (hquote : c ≠ '"') (hbackslash : c ≠ '\\') (h : 32 ≤ c.toNat)
    (rest : List Char) : pieces (c :: rest) = (.char c :: (pieces rest).1, (pieces rest).2) := by
  rw [pieces]
  · rw [if_neg (Nat.not_lt.2 h)]
  all_goals simp_all

theorem pieces_escapeChar (c : Char) (rest : List Char) :
    pieces (escapeChar c ++ rest) = (pieceOf c :: (pieces rest).1, (pieces rest).2) := by
  unfold escapeChar
  split
  iterate 7 rfl
  rename_i hquote hbackslash hb hf hn hr ht
  split
  · rename_i hcontrol
    have hlong : c ∉ ['\x08', '\x0c', '\n', '\r', '\t'] := by
      simp only [List.mem_cons, List.not_mem_nil]
      tauto
    have hpiece : pieceOf c = .unit c.toNat := if_pos ⟨hcontrol, hlong⟩
    simp only [List.cons_append, List.nil_append, pieces, unit?_hexDigit _ hcontrol, hpiece]
  · rename_i hplain
    have hpiece : pieceOf c = .char c := if_neg fun h => hplain h.1
    rw [List.singleton_append, pieces_cons hquote hbackslash (Nat.le_of_not_lt hplain), hpiece]

theorem pieces_escaped (cs rest : List Char) :
    pieces (cs.flatMap escapeChar ++ '"' :: rest) = (cs.map pieceOf, .ok rest) := by
  induction cs with
  | nil => rfl
  | cons c cs ih =>
    rw [List.flatMap_cons, List.append_assoc, pieces_escapeChar, ih]
    rfl

/-- A code unit that is no surrogate stands for its character, whatever follows it. -/
theorem assemble_unit {code : Nat} (h : code < 32) (ending : Except JsonError (List Char))
    (more : List Piece) :
    assemble ending (.unit code :: more) = (Char.ofNat code :: ·) <$> assemble ending more := by
  have hleading : isLeading code = false := by
    simp [isLeading]
    omega
  have htrailing : isTrailing code = false := by
    simp [isTrailing]
    omega
  rcases more with _ | ⟨_ | _, more⟩ <;> simp [assemble, hleading, htrailing]

theorem assemble_pieceOf (cs rest : List Char) :
    assemble (.ok rest) (cs.map pieceOf) = .ok cs := by
  induction cs with
  | nil => rfl
  | cons c cs ih =>
    rw [List.map_cons, pieceOf]
    split
    · rename_i h
      rw [assemble_unit h.1, ih, Char.ofNat_toNat]
      rfl
    · rw [assemble, ih]
      rfl

theorem run_textBody (text : String) (rest : List Char) :
    textBody.run (text.toList.flatMap escapeChar ++ '"' :: rest) = .ok (text, rest) := by
  rw [textBody, run_bind_of_ok (a := _) rfl, pieces_escaped]
  simp only [assemble_pieceOf]
  change Except.ok (String.ofList text.toList, rest) = _
  rw [String.ofList_toList]

theorem toList_quote (text : String) :
    (quote text).toList = '"' :: (text.toList.flatMap escapeChar ++ ['"']) := by
  rw [quote, String.toList_ofList]
  rfl

theorem run_text {text : String} (h : cs.dropWhile isBlank = (quote text).toList ++ rest) :
    Json.text.run cs = .ok (text, rest) := by
  have hcs : cs.dropWhile isBlank = '"' :: (text.toList.flatMap escapeChar ++ '"' :: rest) := by
    rw [h, toList_quote]
    simp
  rw [Json.text, run_bind_of_ok (run_front hcs), if_pos (beq_self_eq_true _),
    run_bind_of_ok (a := ()) rfl]
  exact run_textBody text rest

end Json

namespace Config

/-- The sizes are words of 64 bits. -/
structure Fits (c : Config) : Prop where
  bufferSize : c.bufferSize < UInt64.size
  workerThreads : c.workerThreads < UInt64.size

/-- The settings with the defaults for all but these fields. -/
def keeping (c : Config) (machine : Machine) (fields : List FieldName) : Config :=
  let base := default machine
  { bufferSize := if .bufferSize ∈ fields then c.bufferSize else base.bufferSize
    maxRequestSize := if .maxRequestSize ∈ fields then c.maxRequestSize else base.maxRequestSize
    tmpdir := if .tmpdir ∈ fields then c.tmpdir else base.tmpdir
    workerThreads := if .workerThreads ∈ fields then c.workerThreads else base.workerThreads
    defaultCharset := if .defaultCharset ∈ fields then c.defaultCharset else base.defaultCharset }

namespace FieldName

/-- The fields with one more of them given, as it is in `c`. -/
def give (c : Config) (f : Fields) : FieldName → Fields
  | bufferSize => { f with bufferSize := some c.bufferSize }
  | maxRequestSize => { f with maxRequestSize := some c.maxRequestSize }
  | tmpdir => { f with tmpdir := some c.tmpdir }
  | workerThreads => { f with workerThreads := some c.workerThreads }
  | defaultCharset => { f with defaultCharset := some c.defaultCharset }

theorem ofName?_name (field : FieldName) : ofName? field.name = some field := by
  cases field <;> decide

theorem isGiven_give (c : Config) (f : Fields) (field other : FieldName) :
    other.isGiven (field.give c f) = (other == field || other.isGiven f) := by
  cases field <;> cases other <;> rfl

theorem run_read {c : Config} (hc : c.Fits) (f : Fields) (field : FieldName) {cs rest : List Char}
    (hrest : Json.EndsNumber rest)
    (h : cs.dropWhile Json.isBlank = (c.printed field).toList ++ rest) :
    (field.read f).run cs = .ok (field.give c f, rest) := by
  cases field with
  | bufferSize => exact Json.run_bind_of_ok (Json.run_natural hc.bufferSize hrest h) _
  | maxRequestSize =>
    rw [read, Json.run_bind_of_ok (Json.run_natural c.maxRequestSize.toNat_lt_size hrest h),
      UInt64.ofNat_toNat]
    rfl
  | tmpdir => exact Json.run_bind_of_ok (Json.run_text h) _
  | workerThreads => exact Json.run_bind_of_ok (Json.run_natural hc.workerThreads hrest h) _
  | defaultCharset => exact Json.run_bind_of_ok (Json.run_text h) _

end FieldName

namespace Fields

variable {c : Config} {f : Fields} {field : FieldName} {rest : List Char}

/-- No value begins with a blank. -/
theorem dropWhile_printed (c : Config) (field : FieldName) (rest : List Char) :
    (' ' :: ((c.printed field).toList ++ rest)).dropWhile Json.isBlank
      = (c.printed field).toList ++ rest := by
  have hfirst : ∃ first others, (c.printed field).toList = first :: others
      ∧ Json.isBlank first = false := by
    have hnumber (n : Nat) : ∃ first others, (toString n).toList = first :: others
        ∧ Json.isBlank first = false := by
      obtain ⟨first, others, h, hdigit⟩ := Json.exists_toString_eq_cons n
      exact ⟨first, others, h, Json.isBlank_of_isDigit hdigit⟩
    cases field with
    | bufferSize => exact hnumber _
    | maxRequestSize => exact hnumber _
    | tmpdir => exact ⟨_, _, Json.toList_quote _, rfl⟩
    | workerThreads => exact hnumber _
    | defaultCharset => exact ⟨_, _, Json.toList_quote _, rfl⟩
  obtain ⟨first, others, hprinted, hblank⟩ := hfirst
  rw [hprinted, List.dropWhile_cons_of_pos rfl, List.cons_append,
    List.dropWhile_cons_of_neg (by simp [hblank])]

theorem toList_member (c : Config) (field : FieldName) :
    (c.member field).toList = ' ' :: ' ' :: '"' :: (field.name.toList.flatMap Json.escapeChar
      ++ '"' :: ':' :: ' ' :: (c.printed field).toList) := by
  simp only [member, String.toList_append, Json.toList_quote]
  simp

theorem dropWhile_member (c : Config) (field : FieldName) (rest : List Char) :
    ('\n' :: ((c.member field).toList ++ rest)).dropWhile Json.isBlank
      = '"' :: (field.name.toList.flatMap Json.escapeChar
        ++ '"' :: ':' :: ' ' :: ((c.printed field).toList ++ rest)) := by
  rw [toList_member]
  simp [Json.isBlank]

/-- A member is read where one was written, when the field was not given before. -/
theorem run_readMember (hc : c.Fits) (hnew : field.isGiven f = false)
    (hrest : Json.EndsNumber rest) {cs : List Char}
    (h : cs.dropWhile Json.isBlank
      = ('\n' :: ((c.member field).toList ++ rest)).dropWhile Json.isBlank) :
    (readMember f).run cs = .ok (field.give c f, rest) := by
  rw [dropWhile_member] at h
  rw [readMember, Json.run_bind_of_ok (Json.run_expect h),
    Json.run_bind_of_ok (Json.run_textBody _ _), FieldName.ofName?_name]
  simp only [hnew, Bool.false_eq_true, if_false]
  rw [Json.run_bind_of_ok (Json.run_expect rfl)]
  exact FieldName.run_read hc f field hrest (dropWhile_printed c field rest)

/-- What follows the first of the members: a comma before each other one, then the end. -/
def others (c : Config) : List FieldName → List Char
  | [] => ['\n', '}']
  | field :: fields => ',' :: '\n' :: ((c.member field).toList ++ others c fields)

theorem length_others (c : Config) (fields : List FieldName) :
    fields.length < (others c fields).length := by
  induction fields with
  | nil => exact Nat.zero_lt_succ _
  | cons field fields ih =>
    simp only [others, List.length_cons, List.length_append]
    omega

theorem endsNumber_others (c : Config) (fields : List FieldName) :
    Json.EndsNumber (others c fields) := by
  intro first hfirst
  cases fields <;> cases hfirst <;> decide

/-- The fields given by members, one after the other. -/
def giveAll (c : Config) (f : Fields) (fields : List FieldName) : Fields :=
  fields.foldl (fun f field => field.give c f) f

/-- By induction on the members to come, none of which was given before. -/
theorem run_readMembers_others (hc : c.Fits) (fields : List FieldName) (hnodup : fields.Nodup)
    (hnew : ∀ field ∈ fields, field.isGiven f = false) {fuel : Nat} (hfuel : fields.length < fuel) :
    (readMembers fuel false f).run (others c fields) = .ok (giveAll c f fields, []) := by
  induction fields generalizing f fuel with
  | nil =>
    obtain ⟨fuel, rfl⟩ := Nat.exists_eq_succ_of_ne_zero (Nat.ne_of_gt hfuel)
    rfl
  | cons field fields ih =>
    obtain ⟨fuel, rfl⟩ := Nat.exists_eq_succ_of_ne_zero (Nat.ne_of_gt (Nat.zero_lt_of_lt hfuel))
    obtain ⟨hfresh, hnodup⟩ := List.nodup_cons.1 hnodup
    have hrest : ∀ other ∈ fields, other.isGiven (field.give c f) = false := by
      intro other hother
      have hne : other ≠ field := fun h => hfresh (h ▸ hother)
      rw [FieldName.isGiven_give, hnew other (List.mem_cons_of_mem _ hother)]
      simp [hne]
    have hmember := run_readMember hc (hnew field List.mem_cons_self) (endsNumber_others c fields)
      rfl
    rw [readMembers, Json.run_bind_of_ok (Json.run_front rfl)]
    simp only [Char.reduceBEq, Bool.false_eq_true, if_false, Bool.not_false, if_true]
    rw [Json.run_bind_of_ok (Json.run_expect rfl), Json.run_bind_of_ok hmember]
    exact ih hnodup hrest (Nat.lt_of_succ_lt_succ hfuel)

theorem intercalate_members (c : Config) (field : FieldName) (fields : List FieldName) :
    [',', '\n'].intercalate ((field :: fields).map fun field => (c.member field).toList)
      ++ ['\n', '}'] = (c.member field).toList ++ others c fields := by
  induction fields generalizing field with
  | nil => rw [List.map_singleton, List.intercalate_singleton, others]
  | cons next fields ih =>
    rw [List.map_cons, List.map_cons, List.intercalate_cons_cons, List.append_assoc,
      ← List.map_cons (f := fun field => (c.member field).toList), ih]
    simp [others]

theorem toList_documentOf (c : Config) (fields : List FieldName) :
    (c.documentOf fields).toList = '{' :: '\n' :: match fields with
      | [] => ['\n', '}']
      | field :: fields => (c.member field).toList ++ others c fields := by
  have htext : (c.documentOf fields).toList = '{' :: '\n'
      :: ([',', '\n'].intercalate (fields.map fun field => (c.member field).toList)
        ++ ['\n', '}']) := by
    simp [documentOf, String.toList_intercalate, Function.comp_def]
  rw [htext]
  cases fields with
  | nil => rfl
  | cons field fields => rw [intercalate_members]

theorem run_readMembers (hc : c.Fits) {fields : List FieldName} (hnodup : fields.Nodup) {fuel : Nat}
    (hfuel : fields.length < fuel) :
    (readMembers fuel true {}).run (c.documentOf fields).toList.tail
      = .ok (giveAll c {} fields, []) := by
  obtain ⟨fuel, rfl⟩ := Nat.exists_eq_succ_of_ne_zero (Nat.ne_of_gt (Nat.zero_lt_of_lt hfuel))
  rw [toList_documentOf, List.tail_cons]
  cases fields with
  | nil => rfl
  | cons field fields =>
    obtain ⟨hfresh, hnodup⟩ := List.nodup_cons.1 hnodup
    have hnone : ∀ field : FieldName, field.isGiven {} = false := by
      intro field
      cases field <;> rfl
    have hrest : ∀ other ∈ fields, other.isGiven (field.give c {}) = false := by
      intro other hother
      have hne : other ≠ field := fun h => hfresh (h ▸ hother)
      rw [FieldName.isGiven_give, hnone]
      simp [hne]
    have hmember := dropWhile_member c field (others c fields)
    have hread := run_readMember hc (hnone field) (endsNumber_others c fields)
      (List.dropWhile_idempotent _ _)
    rw [hmember] at hread
    rw [readMembers, Json.run_bind_of_ok (Json.run_front hmember)]
    simp only [Char.reduceBEq, Bool.false_eq_true, if_false, Bool.not_true]
    rw [Json.run_bind_of_ok hread]
    exact run_readMembers_others hc fields hnodup hrest (Nat.lt_of_succ_lt_succ hfuel)

/-- A document that states some of the fields, in any order, is read as just these. -/
theorem parse_documentOf (hc : c.Fits) {fields : List FieldName} (hnodup : fields.Nodup) :
    parse (c.documentOf fields) = .ok (giveAll c {} fields) := by
  have hlength : fields.length < (c.documentOf fields).toList.tail.length + 1 := by
    rw [toList_documentOf]
    cases fields with
    | nil => exact Nat.zero_lt_succ _
    | cons field fields =>
      have := length_others c fields
      simp only [List.tail_cons, List.length_cons, List.length_append]
      omega
  have hread : read.run (c.documentOf fields).toList = .ok (giveAll c {} fields, []) := by
    have hmembers := run_readMembers hc hnodup hlength
    rw [toList_documentOf] at hmembers ⊢
    rw [read, Json.run_bind_of_ok (Json.run_front rfl)]
    exact hmembers
  rw [parse, hread]
  rfl

/-- A field has the value given for it, if any was, and its default otherwise. -/
theorem complete_giveAll (machine : Machine) (c : Config) (fields : List FieldName) :
    complete machine (giveAll c {} fields) = c.keeping machine fields := by
  have hgiven : ∀ f : Fields, giveAll c f fields =
      ⟨if .bufferSize ∈ fields then some c.bufferSize else f.bufferSize,
        if .maxRequestSize ∈ fields then some c.maxRequestSize else f.maxRequestSize,
        if .tmpdir ∈ fields then some c.tmpdir else f.tmpdir,
        if .workerThreads ∈ fields then some c.workerThreads else f.workerThreads,
        if .defaultCharset ∈ fields then some c.defaultCharset else f.defaultCharset⟩ := by
    induction fields with
    | nil => exact fun f => rfl
    | cons field fields ih =>
      intro f
      rw [giveAll, List.foldl_cons, ← giveAll, ih]
      cases field <;> simp [FieldName.give]
  have hgetD : ∀ {α : Type} (p : Prop) [Decidable p] (a b : α),
      (if p then some a else none).getD b = if p then a else b := by
    intro α p _ a b
    split <;> rfl
  simp only [hgiven, complete, keeping, default, hgetD]

end Fields

/-- A file that states some of the settings gives these and the defaults for the others, when they
make sense together. -/
theorem ofFile_documentOf (machine : Machine) {c : Config} (hc : c.Fits) {fields : List FieldName}
    (hnodup : fields.Nodup) :
    ofFile machine (some (Utf8.encode (c.documentOf fields)))
      = ((c.keeping machine fields).validate.mapError Error.config).map
          fun _ => c.keeping machine fields := by
  simp only [ofFile, Utf8.decode_encode, Except.mapError, bind, Except.bind, pure, Except.pure,
    Fields.parse_documentOf hc hnodup, Fields.complete_giveAll]
  cases (c.keeping machine fields).validate <;> rfl

/-- Settings that make sense are read back from their file. -/
theorem ofFile_document (machine : Machine) {c : Config} (hc : c.Fits)
    (hvalid : c.validate = .ok ()) :
    ofFile machine (some (Utf8.encode c.document)) = .ok c := by
  have hall : FieldName.all.Nodup := by decide
  have hkeeping : c.keeping machine FieldName.all = c := rfl
  rw [document, ofFile_documentOf machine hc hall, hkeeping, hvalid]
  rfl

/-- No file gives settings that make no sense. -/
theorem validate_of_ofFile {machine : Machine} {content : Option Bytes} {c : Config}
    (h : ofFile machine content = .ok c) : c.validate = .ok () := by
  rcases content with _ | bytes
  · cases h
  simp only [ofFile, Except.mapError, bind, Except.bind, pure, Except.pure] at h
  rcases hdecode : Utf8.decode bytes with _ | text <;> simp only [hdecode] at h
  · cases h
  rcases hparse : Fields.parse text with _ | fields <;> simp only [hparse] at h
  · cases h
  rcases hvalid : (fields.complete machine).validate with _ | _ <;> simp only [hvalid] at h
  · cases h
  · cases h
    exact hvalid

end Config

end HttpContext
