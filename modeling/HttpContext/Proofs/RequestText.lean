import HttpContext.Proofs.LineBreaks
import HttpContext.Proofs.Reception
/-!
A request that is written out is read back from its bytes, whatever bytes follow it. Main statement:
`Parser.request_feed_encode`.
-/
namespace HttpContext

namespace Text

/-- A word of a request line: it is not empty and has no blank in it. -/
def IsWord (text : String) : Prop := text ≠ "" ∧ ∀ c ∈ text.toList, isBlank c = false

instance (text : String) : Decidable (IsWord text) :=
  @instDecidableAnd _ _ _ (List.decidableBAll _ _)

/-- A name or a value of a header line: it has no blank at either end and does not break the line.
It may well be empty. -/
structure IsField (text : String) : Prop where
  first : ∀ c ∈ text.toList.head?, isBlank c = false
  last : ∀ c ∈ text.toList.getLast?, isBlank c = false
  oneLine : IsOneLine text.toList

instance (text : String) : Decidable (IsField text) :=
  have := Option.decidableForallMem (p := fun c => isBlank c = false)
  decidable_of_iff ((∀ c ∈ text.toList.head?, isBlank c = false)
      ∧ (∀ c ∈ text.toList.getLast?, isBlank c = false) ∧ IsOneLine text.toList)
    ⟨fun h => ⟨h.1, h.2.1, h.2.2⟩, fun h => ⟨h.first, h.last, h.oneLine⟩⟩

theorem IsField.trim {text : String} (h : IsField text) : Text.trim text.toList = text.toList :=
  trim_of_ends h.first h.last

theorem IsWord.not_mem {text : String} (h : IsWord text) {c : Char} (hc : isBlank c = true) :
    c ∉ text.toList := by
  intro hm
  rw [h.2 c hm] at hc
  cases hc

theorem isWord_name (method : Method) : IsWord method.name := by
  cases method <;> decide

/-- Three words with a blank between them. -/
theorem words_of_isWord {first second third : String} (h₁ : IsWord first) (h₂ : IsWord second)
    (h₃ : IsWord third) :
    words (first.toList ++ ' ' :: (second.toList ++ ' ' :: third.toList))
      = [first.toList, second.toList, third.toList] := by
  have hfull : ∀ {text : String}, IsWord text → (!text.toList.isEmpty) = true := by
    intro text h
    simp [h.1]
  rw [words, List.splitOnP_append_cons_of_forall_mem h₁.2 ' ' rfl,
    List.splitOnP_append_cons_of_forall_mem h₂.2 ' ' rfl, List.splitOnP_eq_singleton h₃.2]
  simp [hfull h₁, hfull h₂, hfull h₃]

/-- A line break inside a header line would lie in its name or in its value. -/
theorem isOneLine_headerLine {name : String} (hname : IsOneLine name.toList) {value : List Char}
    (hvalue : IsOneLine value) : IsOneLine (headerLine name value) := by
  have key : ∀ cs : List Char, IsOneLine cs → IsOneLine (cs ++ ':' :: ' ' :: value) := by
    intro cs hcs
    induction cs with
    | nil => simpa [isOneLine_cons] using hvalue
    | cons c rest ih =>
      obtain ⟨hc, hrest⟩ := isOneLine_cons.1 hcs
      refine isOneLine_cons.2 ⟨fun hp => hc ?_, ih hrest⟩
      cases rest with
      | nil => simp at hp
      | cons d more => simpa using hp
  exact key name.toList hname

end Text

namespace HeaderFields

/-- Every header line can be told from the others and cut at its colon. -/
def IsWritable (h : HeaderFields) : Prop :=
  ∀ entry ∈ h.entries, ':' ∉ entry.1.toList ∧ Text.IsField entry.1 ∧ Text.IsField entry.2

instance (h : HeaderFields) : Decidable h.IsWritable :=
  inferInstanceAs (Decidable (∀ entry ∈ h.entries, _))

/-- The header lines as text, without their breaks. -/
def lines (h : HeaderFields) : List (List Char) :=
  h.entries.map fun entry => Text.headerLine entry.1 entry.2.toList

variable {h : HeaderFields}

theorem IsWritable.isOneLine (hw : h.IsWritable) : ∀ line ∈ h.lines, Text.IsOneLine line := by
  rw [lines, List.forall_mem_map]
  intro entry he
  obtain ⟨_, hname, hvalue⟩ := hw entry he
  exact Text.isOneLine_headerLine hname.oneLine hvalue.oneLine

theorem flatMap_lines (h : HeaderFields) :
    h.lines.flatMap (fun line => line.flatMap String.utf8EncodeChar ++ Bytes.crlf) = h.encode := by
  have hmark : ": ".toList = [':', ' '] := by decide
  rw [lines, List.flatMap_map, encode]
  congr 1
  funext entry
  simp [line, Utf8.encode, Text.headerLine, hmark]

/-- Each header line is taken apart at its colon, and the blank behind that is dropped. -/
theorem IsWritable.headerLines_lines (hw : h.IsWritable) :
    RequestHead.headerLines h.lines = .ok h := by
  have hread : ∀ entry ∈ h.entries,
      RequestHead.headerLine (Text.headerLine entry.1 entry.2.toList) = .ok entry := by
    intro entry he
    obtain ⟨hcolon, hname, hvalue⟩ := hw entry he
    rw [RequestHead.headerLine, Text.cut?_headerLine hcolon]
    simp only [Text.trim_blank_cons (c := ' ') rfl, hname.trim, hvalue.trim, String.ofList_toList]
  have hfull : h.lines.filter (fun line => !line.isEmpty) = h.lines := by
    refine List.filter_eq_self.2 fun line hl => ?_
    obtain ⟨entry, _, rfl⟩ := List.mem_map.1 hl
    simp [Text.headerLine_ne_nil]
  have key : ∀ entries : List (String × String), (∀ entry ∈ entries,
        RequestHead.headerLine (Text.headerLine entry.1 entry.2.toList) = .ok entry) →
      (entries.map fun entry => Text.headerLine entry.1 entry.2.toList).mapM RequestHead.headerLine
        = .ok entries := by
    intro entries
    induction entries with
    | nil => exact fun _ => rfl
    | cons first rest ih =>
      intro hentries
      have hrest := ih fun entry he => hentries entry (List.mem_cons_of_mem first he)
      rw [List.map_cons, List.mapM_cons, hentries first List.mem_cons_self, hrest]
      rfl
  rw [RequestHead.headerLines, hfull, lines, key h.entries hread]
  rfl

end HeaderFields

namespace RequestHead

/-- The request line as text, without its break. -/
def startLine (head : RequestHead) : String :=
  head.method.name ++ " " ++ head.target ++ " " ++ head.version

/-- A head as text, up to the blank line. -/
def text (head : RequestHead) : String :=
  String.ofList
    (head.startLine.toList ++ head.headers.lines.flatMap fun line => '\r' :: '\n' :: line)

theorem toList_startLine (head : RequestHead) : head.startLine.toList
    = head.method.name.toList ++ ' ' :: (head.target.toList ++ ' ' :: head.version.toList) := by
  simp [startLine]

/-- The request line has three words, the target of which can be split, and the header lines can be
cut. -/
structure IsWritable (head : RequestHead) : Prop where
  path : '?' ∉ head.path.toList
  target : Text.IsWord head.target
  version : Text.IsWord head.version
  headers : head.headers.IsWritable

variable {head : RequestHead}

theorem IsWritable.isOneLine_startLine (h : head.IsWritable) :
    Text.IsOneLine head.startLine.toList := by
  apply Text.isOneLine_of_not_mem
  have hmethod := (Text.isWord_name head.method).not_mem (c := '\r') rfl
  have htarget := h.target.not_mem (c := '\r') rfl
  have hversion := h.version.not_mem (c := '\r') rfl
  simp [toList_startLine, hmethod, htarget, hversion]

theorem IsWritable.lines_text (h : head.IsWritable) :
    Text.lines head.text.toList = head.startLine.toList :: head.headers.lines := by
  rw [text, String.toList_ofList]
  exact Text.lines_flatMap h.isOneLine_startLine h.headers.isOneLine

theorem IsWritable.requestLine_startLine (h : head.IsWritable) :
    requestLine head.startLine.toList = .ok (head.method, head.target, head.version) := by
  have hmethod := Text.isWord_name head.method
  rw [toList_startLine, requestLine, Text.words_of_isWord hmethod h.target h.version]
  simp only [String.ofList_toList, Method.ofName_name]
  rfl

end RequestHead

/-- The first blank line of a written request is the one that ends its head. -/
theorem RequestMessage.cutAt?_encode {m : RequestMessage} (h : m.head.IsWritable)
    (trailing : Bytes) :
    Bytes.cutAt? Bytes.blankLine (m.encode ++ trailing)
      = some (Utf8.encode m.head.text, m.body ++ trailing) := by
  have hfull : [] ∉ Text.lines m.head.text.toList := by
    rw [h.lines_text, List.mem_cons, not_or]
    refine ⟨?_, fun hm => ?_⟩
    · rw [RequestHead.toList_startLine]
      simp
    · obtain ⟨entry, _, he⟩ := List.mem_map.1 hm
      exact Text.headerLine_ne_nil _ _ he
  have hhead : Utf8.encode m.head.text ++ Bytes.crlf
      = Utf8.encode m.head.startLine ++ Bytes.crlf ++ m.head.headers.encode := by
    rw [Utf8.encode, Utf8.flatMap_lines, h.lines_text, List.flatMap_cons,
      HeaderFields.flatMap_lines]
    rfl
  have hbytes : m.encode ++ trailing
      = Utf8.encode m.head.text ++ (Bytes.blankLine ++ (m.body ++ trailing)) := by
    have hblank : Bytes.blankLine = Bytes.crlf ++ Bytes.crlf := rfl
    calc m.encode ++ trailing
        = (Utf8.encode m.head.startLine ++ Bytes.crlf ++ m.head.headers.encode)
            ++ (Bytes.crlf ++ (m.body ++ trailing)) := by
          simp only [encode, RequestHead.startLine, List.append_assoc]
      _ = _ := by
          rw [← hhead, hblank]
          simp only [List.append_assoc]
  rw [hbytes, Utf8.cutAt?_encode hfull]

/-! ### The request that is read -/

namespace RequestHead

/-- Every target is a path without a question mark, and the query behind the first one if there is
one. -/
theorem exists_target (target : String) : ∃ path query, '?' ∉ path.toList
    ∧ target = match query with
      | some query => path ++ "?" ++ query
      | none => path := by
  by_cases hm : '?' ∈ target.toList
  · obtain ⟨path, query, htarget, hpath⟩ := List.eq_append_cons_of_mem hm
    refine ⟨String.ofList path, some (String.ofList query), by simpa using hpath, ?_⟩
    apply String.toList_inj.1
    simp [htarget]
  · exact ⟨target, none, hm, rfl⟩

theorem cutTarget_target {head : RequestHead} (h : '?' ∉ head.path.toList) :
    cutTarget head.target = (head.path, head.query) := by
  unfold cutTarget target
  cases head.query with
  | some query =>
    have hjoined : (head.path ++ "?" ++ query).toList
        = head.path.toList ++ '?' :: query.toList := by simp
    simp only [hjoined, Text.cut?_append h, String.ofList_toList]
  | none => simp only [Text.cut?_of_not_mem h]

theorem bodyLength_eq_ok {headers : HeaderFields} {length : Nat} (hsize : length < UInt64.size)
    (h : headers.get? "Content-Length" = some (toString length)
      ∨ headers.get? "Content-Length" = none ∧ length = 0) : bodyLength headers = .ok length := by
  have hname : headers.get? "content-length" = headers.get? "Content-Length" := by
    have hfold : Text.fold "content-length" = Text.fold "Content-Length" := by decide
    unfold HeaderFields.get? HeaderFields.hasName Text.sameName
    rw [hfold]
  rw [bodyLength, hname]
  rcases h with h | ⟨h, rfl⟩
  · simp only [h, Text.count?_toString hsize]
  · simp only [h]

end RequestHead

namespace Parser

theorem readHeaders_lines {head : RequestHead} (h : head.IsWritable) {limit length : Nat}
    (hlength : RequestHead.bodyLength head.headers = .ok length)
    (hlimit : limit = 0 ∨ length ≤ limit) :
    readHeaders limit head.method head.target head.version head.headers.lines
      = .ok (head, length) := by
  have hhead : { RequestHead.ofTarget head.method head.target head.headers with
      version := head.version } = head := by
    rw [RequestHead.ofTarget, RequestHead.cutTarget_target h.path]
  have hfits : ¬ (0 < limit && limit < length) = true := by
    simp only [Bool.and_eq_true, decide_eq_true_eq]
    omega
  unfold readHeaders
  rw [h.headers.headerLines_lines]
  show (do
    let length ← (RequestHead.bodyLength head.headers).mapError Error.request
    if 0 < limit && limit < length then throw (Error.tooLarge limit)
    return ({ RequestHead.ofTarget head.method head.target head.headers with
      version := head.version }, length)) = _
  rw [hlength]
  show (if 0 < limit && limit < length then Except.error (Error.tooLarge limit)
    else Except.ok ({ RequestHead.ofTarget head.method head.target head.headers with
      version := head.version }, length)) = _
  rw [if_neg hfits, hhead]

theorem readHead_text {head : RequestHead} (h : head.IsWritable) {limit length : Nat}
    (hlength : RequestHead.bodyLength head.headers = .ok length)
    (hlimit : limit = 0 ∨ length ≤ limit) :
    readHead limit (Utf8.encode head.text) = .ok (head, length) := by
  rw [readHead, Utf8.decode_encode]
  simp only [h.lines_text, List.headD_cons, List.tail_cons, h.requestLine_startLine]
  exact readHeaders_lines h hlength hlimit

/-- The body is taken off at the length that the head announces. -/
theorem judge_encode {m : RequestMessage} (h : m.head.IsWritable) {limit : Nat}
    (hlength : RequestHead.bodyLength m.head.headers = .ok m.body.length)
    (hlimit : limit = 0 ∨ m.body.length ≤ limit) (trailing : Bytes) :
    judge limit (m.encode ++ trailing) = .complete m := by
  have hroom : m.body.length ≤ (m.body ++ trailing).length := by
    rw [List.length_append]
    omega
  rw [judge, RequestMessage.cutAt?_encode h]
  simp only [readHead_text h hlength hlimit]
  rw [if_pos hroom, List.take_left]

theorem of_outcome_eq_complete {out : Except Error Bool × Parser} {m : RequestMessage}
    (h : outcome out = .complete m) : ∃ p, out = (.ok true, p) ∧ p.request = .ok m := by
  unfold outcome at h
  split at h
  · cases h
  · cases h
  · split at h
    · rename_i hm
      cases h
      exact ⟨_, rfl, hm⟩
    · cases h

/-- A request that is written out and fed to a new parser is complete and the same again, whatever
bytes follow it. The target is split at its first question mark. The names and values may be any
text that one header line can hold, and the body may have any bytes: only its length, a number of 64
bits, says where it ends. -/
theorem request_feed_encode (method : Method) {target version : String} {headers : HeaderFields}
    {body : Bytes} {limit : Nat} (htarget : Text.IsWord target) (hversion : Text.IsWord version)
    (hheaders : headers.IsWritable)
    (hlength : headers.get? "Content-Length" = some (toString body.length)
      ∨ headers.get? "Content-Length" = none ∧ body = [])
    (hsize : body.length < UInt64.size) (hlimit : limit = 0 ∨ body.length ≤ limit)
    (trailing : Bytes) :
    let written := Utf8.encode (method.name ++ " " ++ target ++ " " ++ version) ++ Bytes.crlf
      ++ headers.encode ++ Bytes.crlf ++ body
    ∃ p path query, feed { limit } (written ++ trailing) = (.ok true, p)
      ∧ p.request = .ok ⟨{ method, path, query, version, headers }, body⟩
      ∧ '?' ∉ path.toList
      ∧ target = match query with
        | some query => path ++ "?" ++ query
        | none => path := by
  intro written
  obtain ⟨path, query, hpath, hsplit⟩ := RequestHead.exists_target target
  let m : RequestMessage := ⟨{ method, path, query, version, headers }, body⟩
  have htext : m.head.target = target := hsplit.symm
  have hwritten : written = m.encode := by
    rw [RequestMessage.encode, htext]
  have hwritable : m.head.IsWritable :=
    { path := hpath, target := htext.symm ▸ htarget, version := hversion, headers := hheaders }
  have hbody : RequestHead.bodyLength headers = .ok body.length := by
    refine RequestHead.bodyLength_eq_ok hsize (hlength.imp_right fun h => ⟨h.1, ?_⟩)
    rw [h.2, List.length_nil]
  have hjudge : judge limit (written ++ trailing) = .complete m := by
    rw [hwritten]
    exact judge_encode hwritable hbody hlimit trailing
  have hfed : outcome (feed { limit } (written ++ trailing)) = .complete m :=
    (outcome_feed_new limit _).trans hjudge
  obtain ⟨p, hdone, hrequest⟩ := of_outcome_eq_complete hfed
  exact ⟨p, path, query, hdone, hrequest, hpath, hsplit⟩

/-- A value with a letter outside ASCII, a lone carriage return and a lone line feed, an empty name,
the length in another letter case, a body that looks like a blank line, and another request behind
it. -/
theorem request_feed_encode_lone_breaks :
    let headers : HeaderFields :=
      ⟨[("X-Note", "\u00e9\r: \n?"), ("", ""), ("content-LENGTH", "4"), ("Content-Length", "9")]⟩
    let written := Utf8.encode ("POST" ++ " " ++ "/a?b?c" ++ " " ++ "HTTP/1.1") ++ Bytes.crlf
      ++ headers.encode ++ Bytes.crlf ++ Bytes.blankLine
    let next := Utf8.encode "GET / HTTP/1.1\r\n\r\n"
    ∃ p path query, feed { limit := 4 } (written ++ next) = (.ok true, p)
      ∧ p.request = .ok ⟨{ method := .post, path, query, version := "HTTP/1.1", headers },
        Bytes.blankLine⟩
      ∧ '?' ∉ path.toList
      ∧ "/a?b?c" = match query with
        | some query => path ++ "?" ++ query
        | none => path := by
  intro headers _ next
  exact request_feed_encode .post (by decide) (by decide) (by decide) (.inl (by decide)) (by decide)
    (.inr (by decide)) next

end Parser

end HttpContext
