import HttpContext.Proofs.Framing
import HttpContext.Proofs.RangeHeader
import HttpContext.Proofs.Window
/-!
A file that is sent. The positions that a Range header asks for are announced and go out behind the
lines of the head, and nothing else of the file; without such positions all of it goes out under the
status that the handler has chosen. Main statement: `Script.serve_file`.
-/
namespace HttpContext

namespace Response

/-! ### The head under writes -/

theorem head_commit (r : Response) : r.commit.2.head = r.head := by
  unfold commit
  split <;> rfl

theorem head_andThen {r : Response} {out : Except Fault Unit × Response}
    {next : Response → Except Fault Unit × Response} (ho : out.2.head = r.head)
    (hn : ∀ s, (next s).2.head = s.head) : (andThen out next).2.head = r.head :=
  andThen_rel (P := fun r s => s.head = r.head) (fun hrs hst => hst.trans hrs) ho hn

theorem head_writePiece (r : Response) (data : Bytes) : (r.writePiece data).2.head = r.head := by
  unfold writePiece
  split
  · rfl
  · exact head_andThen r.head_commit fun _ => rfl

theorem head_flush (r : Response) : r.flush.2.head = r.head :=
  head_andThen r.head_commit fun _ => rfl

theorem head_write (r : Response) (data : Bytes) : (r.write data).2.head = r.head := by
  unfold write
  split
  · rfl
  · split
    · rfl
    · exact r.head_writePiece data

theorem head_writeAll (r : Response) (data : Bytes) : (r.writeAll data).2.head = r.head := by
  unfold writeAll
  split
  · rfl
  · exact r.head_write data

end Response

namespace Script

/-! ### The status that a handler chooses -/

theorem head_item (whole : Bool) (r : Response) (item : Item) :
    (item.write whole r).2.head = r.head := by
  cases item with
  | flush => exact r.head_flush
  | data bytes =>
    cases whole with
    | true => exact r.head_writeAll bytes
    | false => exact r.head_write bytes

theorem head_writeItems (whole : Bool) (items : List Item) (r : Response) :
    (writeItems whole items r).2.head = r.head := by
  induction items generalizing r with
  | nil => rfl
  | cons item rest ih => exact (ih _).trans (head_item whole r item)

def Action.status? : Action → Option Status
  | .setStatus status => some status
  | _ => none

/-- The status of the response when the ending of the steps begins: the last one that was set. -/
def chosenStatus (status : Status) : List Step → Status
  | [] => status
  | .finish _ :: _ => status
  | .act action :: rest => chosenStatus (action.status?.getD status) rest
  | .dispatch _ :: rest => chosenStatus status rest
  | .detach :: rest => chosenStatus status rest

theorem status_writeOut (c : Context) (items : List Item) (whole : Bool) :
    (writeOut c.openStream items whole).2.response.head.status = c.response.head.status := by
  have hopen : c.openStream.response.head.status = c.response.head.status := by
    show (ResponseHead.setChunkedWithoutLength _).status = _
    unfold ResponseHead.setChunkedWithoutLength
    split <;> rfl
  have hwritten := head_writeItems whole items c.openStream.response
  exact (congrArg (·.status) hwritten).trans hopen

theorem status_act (h : Handler) (action : Action) :
    (act h action).2.context.response.head.status
      = action.status?.getD h.context.response.head.status := by
  cases action
  case form => exact congrArg (·.head.status) h.context.response_form
  case multipart => exact congrArg (·.head.status) h.context.response_multipart
  case defaultType type =>
    show (h.context.defaultType type).response.head.status = _
    unfold Context.defaultType
    split <;> rfl
  case stream items whole => exact status_writeOut h.context items whole
  case writer type charset items whole =>
    exact status_writeOut (h.context.setType type (charset <|> h.context.defaultCharset type)) items
      whole
  -- the others say nothing of the status, and most of them nothing of the response
  all_goals first
    | rfl
    | simp only [act]
      split <;> rfl

theorem status_arrive (h : Handler) (steps : List Step) :
    (arrive h steps).1.context.response.head.status
      = chosenStatus h.context.response.head.status steps := by
  fun_induction arrive h steps with
  | case1 => rfl
  | case2 => rfl
  | case3 h action rest ih => rw [ih, chosenStatus, status_act]
  | case4 h executor rest ih => rw [ih, chosenStatus, response_dispatch]
  | case5 h rest ih => rw [ih, chosenStatus, response_detach]

end Script

namespace Context

/-! ### The head of a file -/

/-- The head announces these positions of a file of this length, or with none of them the whole file,
under this status. -/
def AnnouncesFile (head : ResponseHead) (length : Nat) (status : Status) :
    Option (Nat × Nat) → Prop
  | some (first, last) =>
    head.status = .partialContent
      ∧ head.headers.values "Content-Length" = [toString (last - first + 1)]
      ∧ head.headers.values "Content-Range"
        = ["bytes " ++ toString first ++ "-" ++ toString last ++ "/" ++ toString length]
      ∧ head.headers.values "Accept-Ranges" = ["bytes"]
      ∧ head.headers.values "Transfer-Encoding" = []
  | none =>
    head.status = status
      ∧ head.headers.values "Content-Length" = [toString length]
      ∧ head.headers.values "Content-Range" = []
      ∧ head.headers.values "Transfer-Encoding" = []

def excerpt (content : Bytes) : Option (Nat × Nat) → Bytes
  | some (first, last) => (content.drop first).take (last - first + 1)
  | none => content

variable {c : Context} {length : Nat}

theorem announcesFile_full (hc : c.response.head.headers.values "Content-Range" = []) :
    AnnouncesFile (c.withLength length).response.head length c.response.head.status none := by
  have hlt : Text.sameName "Content-Length" "Transfer-Encoding" = false := by decide
  have hlr : Text.sameName "Content-Length" "Content-Range" = false := by decide
  have htr : Text.sameName "Transfer-Encoding" "Content-Range" = false := by decide
  refine ⟨rfl, ?_, ?_, ?_⟩ <;>
    simp only [withLength, Response.setLength, Response.removeHeader,
      ResponseHead.setContentLength, HeaderFields.values_set, HeaderFields.values_remove,
      Text.sameName_refl, hlt, hlr, htr, hc, Bool.false_eq_true, ↓reduceIte]

theorem announcesFile_span {first last : Nat} (hle : first ≤ last) (status : Status) :
    AnnouncesFile ((c.withLength length).announceRange ⟨first, last + 1, length, true⟩).response.head
      length status (some (first, last)) := by
  have hlt : Text.sameName "Content-Length" "Transfer-Encoding" = false := by decide
  have hlr : Text.sameName "Content-Length" "Content-Range" = false := by decide
  have hla : Text.sameName "Content-Length" "Accept-Ranges" = false := by decide
  have hrt : Text.sameName "Content-Range" "Transfer-Encoding" = false := by decide
  have hra : Text.sameName "Content-Range" "Accept-Ranges" = false := by decide
  have hat : Text.sameName "Accept-Ranges" "Transfer-Encoding" = false := by decide
  have hwindow : last + 1 - first = last - first + 1 := by omega
  refine ⟨rfl, ?_, ?_, ?_, ?_⟩ <;>
    simp only [announceRange, setStatus, setHeader, setLength, withLength, Response.setStatus,
      Response.setHeader, Response.setLength, Response.removeHeader,
      ResponseHead.setContentLength, HeaderFields.values_set, HeaderFields.values_remove,
      Text.sameName_refl, hlt, hlr, hla, hrt, hra, hat, Bool.false_eq_true, ↓reduceIte,
      ByteRange.window, ByteRange.contentRange, Nat.add_sub_cancel, hwindow]

theorem announcesFile_ofPositions {header : Option String} {asked : Option (Nat × Nat)}
    (hasks : ByteRange.Asks length header asked)
    (hrange : c.response.head.headers.values "Content-Range" = []) :
    AnnouncesFile ((c.withLength length).announceRange (.ofPositions length asked)).response.head
      length c.response.head.status asked := by
  cases asked with
  | none => exact announcesFile_full hrange
  | some positions => exact announcesFile_span hasks.bounds.1 _

theorem take_drop_ofPositions {content : Bytes} {header : Option String}
    {asked : Option (Nat × Nat)} (hasks : ByteRange.Asks content.length header asked) :
    (content.drop (ByteRange.ofPositions content.length asked).start).take
      (ByteRange.ofPositions content.length asked).window = excerpt content asked := by
  cases asked with
  | none => simp [ByteRange.ofPositions, ByteRange.full, ByteRange.window, excerpt]
  | some positions =>
    have hle := hasks.bounds.1
    have hwindow : positions.2 + 1 - positions.1 = positions.2 - positions.1 + 1 := by omega
    simp [ByteRange.ofPositions, ByteRange.window, excerpt, hwindow]

/-- A file is a success, and what was asked for of it goes out behind a head that announces it. -/
theorem sendFile_of_asks (hc : Ongoing c) (hsound : c.response.sink.IsSound)
    (hcommitted : c.response.isCommitted = false) {content : Bytes} {file : File}
    (hfile : file.Holds content) (hsize : content.length < UInt64.size) {asked : Option (Nat × Nat)}
    (hasks : ByteRange.Asks content.length (c.request.head.header? "Range") asked)
    (hrange : c.response.head.headers.values "Content-Range" = []) :
    ∃ d : Context, Continues c d ∧ c.sendFile file = d.release none
      ∧ AnnouncesFile d.response.head content.length c.response.head.status asked
      ∧ (d.release none).response.wire
          = c.response.wire ++ d.response.head.encode ++ excerpt content asked := by
  let range := ByteRange.ofPositions content.length asked
  let e := (c.withLength content.length).announceRange range
  have hresolve : (c.withLength content.length).requestedRange content.length = range :=
    ByteRange.resolve_of_asks hasks hsize
  have hlength : Continues c (c.withLength content.length) := .of_head rfl rfl
  have hce : Continues c e := hlength.trans (continues_announceRange _ range)
  -- the length that is announced is that of the window, and no chunked coding is left
  have ha : Announces e range.window := by
    have hset : (c.withLength content.length).response.head.contentLength
        = some content.length := ResponseHead.contentLength_setContentLength _ hsize
    have hwindow := contentLength_announceRange hset
    rw [hresolve] at hwindow
    refine ⟨hwindow, ?_, ?_⟩
    · rw [isChunked_announceRange]
      exact isChunked_withLength c content.length
    · rw [(prepares_announceRange _ range).isCommitted]
      exact hcommitted
  obtain ⟨window, hwindow, hsteady, hbytes⟩ := hfile.window range
  have hcontent : window.content = excerpt content asked := by
    rw [hbytes, hfile.content]
    exact take_drop_ofPositions hasks
  obtain ⟨d, hed, hcopy, hhead, hwire⟩ :=
    ha.copyOut (hc.of_continues hce) (hce.response.isSound hsound) hsteady
  have hsent : c.sendFile file = e.copyOut window := by
    simp only [sendFile, hfile.metadataFault, hfile.length, hresolve, hwindow, copyWindow]
    rfl
  have hstart : e.response.wire = c.response.wire := by
    rw [Response.wire, sink_announceRange]
    rfl
  refine ⟨d, hce.trans hed, hsent.trans hcopy, ?_, ?_⟩
  · rw [hhead]
    exact announcesFile_ofPositions hasks hrange
  · rw [hwire, hstart, hhead, hcontent]

end Context

namespace Script

open Context

/-- A file is sent to a sound connection before anything else of the response. The request succeeds,
and behind the lines of the head, of which the first tells a part from the whole, exactly the
positions that were asked for go out, or the whole file where none were. -/
theorem serve_file (engine : Engine) (router : Router) (io : Executor) (request : Request)
    {sink : Sink} (hsink : sink.IsSound) (spool : Spool) (steps : List Step) {content : Bytes}
    {file : File} (hfile : file.Holds content) (hsize : content.length < UInt64.size)
    {asked : Option (Nat × Nat)}
    (hasks : ByteRange.Asks content.length (request.head.header? "Range") asked)
    (hstarted : (arrive ⟨.start engine router io request sink spool, none⟩
      steps).1.context.response.isCommitted = false)
    (hrange : (arrive ⟨.start engine router io request sink spool, none⟩
      steps).1.context.response.head.headers.values "Content-Range" = [])
    (he : (arrive ⟨.start engine router io request sink spool, none⟩ steps).2
        = .send (.file file)
      ∨ (arrive ⟨.start engine router io request sink spool, none⟩ steps).2
        = .sender (some (.file file))) :
    let c := (serve engine router io request sink spool steps).2.context
    ∃ head : ResponseHead, c.completions = (listeners steps).map (·, none)
      ∧ AnnouncesFile head content.length (chosenStatus .ok steps) asked
      ∧ (asked.isSome = true → Utf8.encode "HTTP/1.1 206 Partial Content" ∈ head.lines.head?)
      ∧ c.response.wire = sink.wire ++ Bytes.block head.lines ++ excerpt content asked := by
  intro c
  have hongoing := ongoing_arrive engine router io request sink spool steps
  have harrive := continues_arrive ⟨.start engine router io request sink spool, none⟩ steps
  have hstatus := status_arrive ⟨.start engine router io request sink spool, none⟩ steps
  obtain ⟨a, hca, hresponse, happly⟩ := apply_of_sending he hfile.metadataFault
  have hreached := harrive.trans hca
  have hwire : a.response.wire = sink.wire := by
    rw [hresponse]
    exact (harrive.response.wire hstarted).2
  obtain ⟨d, hd, hsend, hannounces, hsent⟩ := sendFile_of_asks (c := a) (hongoing.of_continues hca)
    (hreached.response.isSound hsink) (hresponse ▸ hstarted) hfile hsize (hreached.head ▸ hasks)
    (hresponse ▸ hrange)
  have hc : c = d.release none := (run_eq_apply _ steps).trans (happly.trans hsend)
  have hlisteners : d.listeners = listeners steps := (hreached.trans hd).listeners
  refine ⟨d.response.head, ?_, ?_, fun hasked => ?_, ?_⟩
  · rw [hc, (hongoing.of_continues (hca.trans hd)).completions_release, hlisteners]
  · have hchosen : a.response.head.status = chosenStatus .ok steps := by
      rw [hresponse]
      exact hstatus
    rwa [hchosen] at hannounces
  · obtain ⟨positions, rfl⟩ := Option.isSome_iff_exists.1 hasked
    rw [ResponseHead.lines, hannounces.1]
    exact rfl
  · rw [hc, hsent, hwire, ResponseHead.encode_eq_block]

/-- The last three of five bytes are asked for, through a sender of the stream engine. -/
theorem serve_file_suffix :
    let router : Router := { config := .default ⟨"/tmp", 1⟩, worker := .sameThread 0 }
    let headers : HeaderFields := ⟨[("range", "bytes=-3")]⟩
    let request : Request := { head := { method := .get, path := "/", headers }, input := none }
    let file : File := .ofBytes (Utf8.encode "abcde")
    let steps := [.act (.addListener "end"), .act (.setStatus .created),
      .finish (.sender (some (.file file)))]
    let c := (serve .stream router (.ioThread 1 "io") request {} {} steps).2.context
    c.response.wire = Utf8.encode ("HTTP/1.1 206 Partial Content\r\nContent-Length: 3\r\n"
        ++ "Accept-Ranges: bytes\r\nContent-Range: bytes 2-4/5\r\n\r\ncde")
      ∧ ∃ head : ResponseHead, c.completions = (listeners steps).map (·, none)
        ∧ AnnouncesFile head 5 (chosenStatus .ok steps) (some (2, 4))
        ∧ Utf8.encode "HTTP/1.1 206 Partial Content" ∈ head.lines.head?
        ∧ c.response.wire = [] ++ Bytes.block head.lines ++ Utf8.encode "cde" := by
  intro router headers request file steps c
  have hasks : ByteRange.Asks 5 (some (ByteRange.suffixHeader 3)) (some (5 - min 3 5, 5 - 1)) :=
    .suffix (by decide) (by decide) (by decide)
  have hheader : request.head.header? "Range" = some (ByteRange.suffixHeader 3) := by decide +kernel
  have hsink : Sink.IsSound {} := ⟨rfl, rfl, rfl, rfl⟩
  obtain ⟨head, htold, hannounces, hstatus, hwire⟩ := serve_file .stream router (.ioThread 1 "io")
    request hsink {} steps (File.holds_ofBytes (Utf8.encode "abcde")) (by decide)
    (hheader ▸ hasks) (by decide +kernel) (by decide +kernel) (.inr rfl)
  exact ⟨by decide +kernel, head, htold, hannounces, hstatus rfl, hwire⟩

end Script

end HttpContext
