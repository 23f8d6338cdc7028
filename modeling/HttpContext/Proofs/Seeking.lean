import HttpContext.Proofs.Buffering
import HttpContext.Proofs.Window
/-!
A file is sent from the position that it is set to, a source from where its first bytes have been
thrown away. When the length of the file has been announced for the source, and the source yields the
bytes of the file, nothing tells the two apart. Main statement: `Script.serve_file_eq_serve_source`.
-/
namespace HttpContext

namespace HeaderFields

variable {h : HeaderFields} {name value : String}

theorem remove_of_values_nil (hv : h.values name = []) : h.remove name = h := by
  have hnone : h.entries.filter (hasName name) = [] := List.map_eq_nil_iff.1 hv
  have hkeep : h.entries.filter (fun entry => !hasName name entry) = h.entries := by
    rw [List.filter_eq_self]
    intro entry he
    simpa using List.filter_eq_nil_iff.1 hnone entry he
  rw [remove, hkeep]

/-- A line that is there already is set to no effect. -/
theorem set_of_values (hv : h.values name = [value]) : h.set name value = h := by
  have key : ∀ entries : List (String × String), values ⟨entries⟩ name = [value] →
      setIn name value entries = entries := by
    intro entries
    induction entries with
    | nil => exact fun hv => nomatch hv
    | cons entry rest ih =>
      intro hv
      by_cases he : hasName name entry = true
      · rw [values_cons, if_pos he] at hv
        obtain ⟨hvalue, hrest⟩ := List.cons.inj hv
        have hkeep : rest.filter (fun e => !hasName name e) = rest :=
          congrArg entries (remove_of_values_nil (h := ⟨rest⟩) hrest)
        simp only [setIn, he, ↓reduceIte, hkeep, ← hvalue]
      · rw [values_cons, if_neg he] at hv
        simp only [setIn, he, Bool.false_eq_true, ↓reduceIte, ih hv]
  exact congrArg HeaderFields.mk (key h.entries hv)

end HeaderFields

namespace Source

/-- A window that ends within the front of a source does not reach what is behind. -/
theorem take_append {n : Nat} {s : Source} (hn : n ≤ (content s).length) (more : Source) :
    take n (s ++ more) = take n s := by
  fun_induction take n s with
  | case1 n =>
    obtain rfl : n = 0 := Nat.le_zero.1 hn
    unfold take
    split <;> rfl
  | case2 fault tail => rfl
  | case3 n fault tail hz ih => rw [List.cons_append, take, if_neg hz, ih hn]
  | case4 bytes tail => rfl
  | case5 n bytes tail hz ih =>
    have hrest : n - bytes.length ≤ (content tail).length := by
      simp only [content, List.length_append] at hn
      omega
    rw [List.cons_append, take, if_neg hz, ih hrest]

theorem skip_append {n : Nat} {s rest : Source} (hn : n < (content s).length)
    (h : skip n s = .ok rest) (more : Source) : skip n (s ++ more) = .ok (rest ++ more) := by
  fun_induction skip n s with
  | case1 => exact absurd hn (Nat.lt_irrefl 0)
  | case2 => cases h
  | case3 fault tail =>
    cases h
    rfl
  | case4 n fault tail hz hi ih =>
    rw [List.cons_append, skip, if_neg hz, if_pos hi]
    exact ih hn h
  | case5 => cases h
  | case6 n piece tail hd ih =>
    have hlen : piece.length ≤ n := List.drop_eq_nil_iff.1 hd
    have hrest : n - piece.length < (content tail).length := by
      simp only [content, List.length_append] at hn
      omega
    rw [List.cons_append, skip, hd]
    exact ih hrest h
  | case7 n piece tail hd =>
    cases h
    rw [List.cons_append, skip]
    split
    · contradiction
    · rfl

end Source

namespace Context

open Source (IsSteady)

/-- The window of a source is cut out of its front, whatever comes behind that. -/
theorem windowOf_append {source : Source} (hs : source.IsSteady) {range : ByteRange}
    (hr : range.Fits source.content.length) (more : Source) :
    ∃ window, windowOf (source ++ more) range = .ok window ∧ window.IsSteady
      ∧ window.content = (source.content.drop range.start).take range.window := by
  have hlt := hr.start_lt
  have hle := hr.stop_le
  have hwindow : range.window = range.stop - range.start := rfl
  obtain ⟨rest, hskip, hsteady, hcontent⟩ := hs.skip (n := range.start) (by omega)
  have hfits : range.window ≤ rest.content.length := by
    rw [hcontent, List.length_drop]
    omega
  refine ⟨rest.take range.window, ?_, hsteady.take _, ?_⟩
  · rw [windowOf, Source.skip_append (by omega) hskip more]
    exact congrArg Except.ok (Source.take_append hfits more)
  · rw [Source.content_take, hcontent]

/-- The length of a body is announced, once and as a plain number, and no transfer coding is. -/
structure AnnouncesOnly (c : Context) (length : Nat) : Prop where
  length : c.response.head.headers.values "Content-Length" = [toString length]
  coding : c.response.head.headers.values "Transfer-Encoding" = []

variable {c : Context} {length : Nat}

theorem AnnouncesOnly.of_head {d : Context} (h : AnnouncesOnly c length)
    (hd : d.response.head = c.response.head) : AnnouncesOnly d length :=
  ⟨hd ▸ h.length, hd ▸ h.coding⟩

theorem AnnouncesOnly.withLength (h : AnnouncesOnly c length) : c.withLength length = c := by
  have hremove := HeaderFields.remove_of_values_nil h.coding
  have hset := HeaderFields.set_of_values h.length
  simp only [Context.withLength, Response.removeHeader, Response.setLength,
    ResponseHead.setContentLength, hremove, hset]

theorem AnnouncesOnly.contentLength (h : AnnouncesOnly c length) (hlt : length < UInt64.size) :
    c.response.head.contentLength = some length := by
  have hset := c.response.head.contentLength_setContentLength hlt
  rwa [ResponseHead.setContentLength, HeaderFields.set_of_values h.length] at hset

/-- A sender has nothing to settle then. -/
theorem AnnouncesOnly.openSender (h : AnnouncesOnly c length) (hlt : length < UInt64.size) :
    AnnouncesOnly c.openSender length := by
  have hkeep : c.response.setChunkedWithoutLength = c.response := by
    simp only [Response.setChunkedWithoutLength, ResponseHead.setChunkedWithoutLength,
      h.contentLength hlt, Option.isNone_some, Bool.false_eq_true, ↓reduceIte]
  apply h.of_head
  unfold Context.openSender
  split
  · rw [response_markAsync]
    exact congrArg Response.head hkeep
  · rfl

/-- The window of the file and that of the source hold the same bytes, behind the same head. -/
theorem sendFile_eq_sendSource {source : Source} (hs : source.IsSteady) {file : File}
    (hfile : file.Holds source.content) (hne : source.content ≠ [])
    (hlt : source.content.length < UInt64.size) (h : AnnouncesOnly c source.content.length)
    (more : Source) : c.sendFile file = c.sendSource (source ++ more) := by
  obtain ⟨n, hn⟩ : ∃ n, source.content.length = n + 1 :=
    Nat.exists_eq_add_one.2 (List.length_pos_iff.2 hne)
  have hlength : c.response.head.contentLength = some (n + 1) := hn ▸ h.contentLength hlt
  have hkeep : c.withLength (n + 1) = c := hn ▸ h.withLength
  have hfits : (c.requestedRange (n + 1)).Fits source.content.length := by
    rw [hn]
    exact ByteRange.fits_resolve n.succ_pos _
  obtain ⟨window, hwindow, hsteady, hcontent⟩ := windowOf_append hs hfits more
  obtain ⟨sought, hsought, hreads, hbytes⟩ := hfile.window (c.requestedRange (n + 1))
  have hsame : sought.content = window.content := by rw [hbytes, hcontent, hfile.content]
  have hreported : file.length = n + 1 := hfile.length.trans hn
  calc c.sendFile file
      = (c.announceRange (c.requestedRange (n + 1))).copyOut sought := by
        simp only [sendFile, hfile.metadataFault, hreported, hkeep, hsought, copyWindow]
    _ = (c.announceRange (c.requestedRange (n + 1))).copyOut window :=
        copyOut_congr _ hreads hsteady hsame
    _ = c.sendSource (source ++ more) := by
        simp only [sendSource, hlength, hwindow, copyWindow]

end Context

namespace Script

open Context (AnnouncesOnly)

/-- Steps that two handlers have in common do not tell them apart if their endings do not. -/
theorem run_append_finish {h : Handler} {steps : List Step} {first second : Ending}
    (he : first.apply (arrive h steps).1.context = second.apply (arrive h steps).1.context) :
    run h (steps ++ [.finish first]) = run h (steps ++ [.finish second]) := by
  fun_induction arrive h steps with
  | case1 h => simp only [List.nil_append, run, he]
  | case2 => rfl
  | case3 h action rest ih => simp only [List.cons_append, run, ih he]
  | case4 h executor rest ih => simp only [List.cons_append, run, ih he]
  | case5 h rest ih => simp only [List.cons_append, run, ih he]

/-- A file, and a source that yields the bytes of the file and then perhaps more, are sent alike after
the length of the file was announced: everything about the request comes out the same, whatever the
connection answers to the writes and flushes. -/
theorem serve_file_eq_serve_source (engine : Engine) (router : Router) (io : Executor)
    (request : Request) (sink : Sink) (spool : Spool) (steps : List Step) {content : Bytes}
    (hne : content ≠ []) (hlt : content.length < UInt64.size) {file : File}
    (hfile : file.Holds content) {source : Source} (hs : source.IsSteady)
    (hc : source.content = content) (more : Source)
    (ha : AnnouncesOnly (arrive ⟨.start engine router io request sink spool, none⟩
      steps).1.context content.length) {ending : Sending → Ending}
    (he : ending = .send ∨ ending = fun what => .sender (some what)) :
    serve engine router io request sink spool (steps ++ [.finish (ending (.file file))])
      = serve engine router io request sink spool
          (steps ++ [.finish (ending (.source (source ++ more)))]) := by
  subst hc
  apply run_append_finish
  rcases he with rfl | rfl
  · exact Context.sendFile_eq_sendSource hs hfile hne hlt ha more
  · exact Context.sendFile_eq_sendSource hs hfile hne hlt (ha.openSender hlt) more

/-- Three of five bytes are asked for. The connection is interrupted in the head, and the flush that
follows the first buffer fails. The source yields its bytes in two pieces, with an interruption
between them and a failure behind. -/
theorem serve_file_eq_serve_source_refused :
    let router : Router := { config := .default ⟨"/tmp", 1⟩, worker := .sameThread 0 }
    let io : Executor := .ioThread 1 "io"
    let headers : HeaderFields := ⟨[("range", "bytes=1-3")]⟩
    let request : Request := { head := { method := .get, path := "/", headers }, input := none }
    let sink : Sink := {
      refusals := [(60, .fault (.external .interrupted none))]
      flushFaults := [(0, .system .brokenPipe)] }
    let steps := [.act (.addListener "end"), .act (.setLength 5)]
    let source : Source := [.data [97, 98], .fail (.external .interrupted none), .data [99, 100, 101]]
    let more : Source := [.data [102], .fail .streamTooShort]
    ([97, 98, 99, 100, 101] : Bytes) ≠ [] ∧ 5 < UInt64.size ∧ source.IsSteady
      ∧ source.content = [97, 98, 99, 100, 101]
      ∧ (File.ofBytes [97, 98, 99, 100, 101]).Holds [97, 98, 99, 100, 101]
      ∧ AnnouncesOnly (arrive ⟨.start .callback router io request sink {}, none⟩ steps).1.context 5
      ∧ serve .callback router io request sink {}
            (steps ++ [.finish (.sender (some (.file (.ofBytes [97, 98, 99, 100, 101]))))])
          = serve .callback router io request sink {}
            (steps ++ [.finish (.sender (some (.source (source ++ more))))]) := by
  intro router io headers request sink steps source more
  have hs : source.IsSteady := by
    intro fault hf
    simp only [source, List.mem_cons, List.not_mem_nil, or_false, reduceCtorEq, false_or,
      Source.Event.fail.injEq] at hf
    rw [hf]
    rfl
  have ha : AnnouncesOnly (arrive ⟨.start .callback router io request sink {}, none⟩
      steps).1.context 5 := ⟨by decide +kernel, by decide +kernel⟩
  have hfile := File.holds_ofBytes [97, 98, 99, 100, 101]
  exact ⟨by decide, by decide, hs, rfl, hfile, ha,
    serve_file_eq_serve_source .callback router io request sink {} steps (by decide) (by decide)
      hfile hs rfl more ha (.inr rfl)⟩

end Script

end HttpContext
