import HttpContext.Proofs.Endings
import HttpContext.Proofs.Progress
/-!
Every ending first prepares the head of the response and then does one piece of work on the body:
none at all, one buffer, or the copy of a source. The head that it has prepared announces that body.
-/
namespace HttpContext

/-- The work that an ending does before the request is released. -/
inductive Work
  /-- none; the request has this outcome -/
  | leave (outcome : Option Fault)
  | put (data : Bytes)
  | copy (source : Source)
  deriving Repr, DecidableEq

namespace Work

def run (c : Context) : Work → Context
  | leave outcome => c.release outcome
  | put data => c.putOut data
  | copy source => c.copyOut source

/-- The copy of a window, if it was found. -/
def ofWindow : Except Fault Source → Work
  | .ok window => copy window
  | .error cause => leave (some cause)

theorem run_ofWindow (c : Context) (window : Except Fault Source) :
    (ofWindow window).run c = c.copyWindow window := by
  cases window with
  | ok window => rfl
  | error cause => exact (Context.endWith_eq c (.error cause)).symm

/-- What the work does to the response where no flush fails. Sources are copied in buffers of `size`
bytes. -/
def write (size : Nat) (r : Response) : Work → Except Fault Unit × Response
  | leave none => (.ok (), r)
  | leave (some cause) => (.error cause, r)
  | put data => r.send data
  | copy source => Response.writeFrom size source r

/-- The failure that the work meets before it writes anything. -/
def firstFault (size : Nat) : Work → Option Fault
  | leave outcome => outcome
  | put _ => none
  | copy source => failure? (source.fill size).1

/-- The body of the work is announced: as chunks, or with a length that it does not pass. -/
def AnnouncedBy (head : ResponseHead) : Work → Prop
  | leave _ => True
  | put data => head.isChunked = false ∧ head.contentLength = some data.length
  | copy source => head.isChunked = true
      ∨ ∃ length, head.contentLength = some length ∧ source.EndsBy length

end Work

/-- The length of a body that is sent as it is. -/
def Sending.size : Sending → Nat
  | .empty _ => 0
  | .bytes data => data.length
  | .source _ => 0
  | .file opened => opened.length

namespace Context

/-- A context whose head is ready for what is sent, and the work that remains. -/
def prepare (c : Context) : Sending → Context × Work
  | .empty status => ((c.withLength 0).setStatus status, .leave none)
  | .bytes data => (c.withLength data.length, .put data)
  | .file file =>
    match file.metadataFault with
    | some cause => (c, .leave (some cause))
    | none =>
      let c := c.withLength file.length
      let range := c.requestedRange file.length
      (c.announceRange range, .ofWindow (file.window range))
  | .source source =>
    match c.response.head.contentLength with
    | some (length + 1) =>
      let range := c.requestedRange (length + 1)
      (c.announceRange range, .ofWindow (windowOf source range))
    | _ => ({ c with response := (c.response.removeHeader "Content-Length").setChunked },
        .copy source)

theorem send_eq_run (c : Context) (what : Sending) :
    c.send what = (c.prepare what).2.run (c.prepare what).1 := by
  cases what with
  | empty status => exact drop_release _ none
  | bytes data => rfl
  | file file =>
    cases hf : file.metadataFault with
    | none => simp only [send, sendFile, prepare, hf, Work.run_ofWindow]
    | some cause =>
      simp only [send, sendFile, prepare, hf]
      exact endWith_eq _ _
  | source source =>
    rcases hl : c.response.head.contentLength with _ | _ | length <;>
      simp only [send, sendSource, prepare, hl]
    · rfl
    · rfl
    · exact (Work.run_ofWindow _ _).symm

/-- Only the head of the response is edited on the way from `c` to `d`. -/
structure Prepares (c d : Context) : Prop extends Continues c d where
  onlyHead : d.response = { c.response with head := d.response.head }

theorem Prepares.refl (c : Context) : Prepares c c := ⟨.refl c, rfl⟩

theorem Prepares.trans {c d e : Context} (hcd : Prepares c d) (hde : Prepares d e) :
    Prepares c e := by
  refine ⟨hcd.toContinues.trans hde.toContinues, ?_⟩
  rw [hde.onlyHead, hcd.onlyHead]

theorem Prepares.of_head {c d : Context} (h : d.fixed = c.fixed)
    (hr : d.response = { c.response with head := d.response.head }) : Prepares c d :=
  ⟨.of_head h hr, hr⟩

theorem Prepares.wire {c d : Context} (h : Prepares c d) : d.response.wire = c.response.wire := by
  rw [h.onlyHead]
  rfl

theorem Prepares.isCommitted {c d : Context} (h : Prepares c d) :
    d.response.isCommitted = c.response.isCommitted := by
  rw [h.onlyHead]

theorem prepares_announceRange (c : Context) (range : ByteRange) :
    Prepares c (c.announceRange range) := by
  unfold announceRange
  split
  · exact .of_head rfl rfl
  · exact .refl c

theorem prepares_openSender (c : Context) : Prepares c c.openSender := by
  refine ⟨continues_openSender c, ?_⟩
  unfold openSender
  split
  · unfold markAsync
    split <;> rfl
  · rfl

theorem prepares_prepare (c : Context) (what : Sending) : Prepares c (c.prepare what).1 := by
  cases what with
  | empty status => exact .of_head rfl rfl
  | bytes data => exact .of_head rfl rfl
  | file file =>
    have hl : Prepares c (c.withLength file.length) := .of_head rfl rfl
    simp only [prepare]
    split
    · exact .refl c
    · exact hl.trans (prepares_announceRange _ _)
  | source source =>
    simp only [prepare]
    split
    · exact prepares_announceRange c _
    · exact .of_head rfl rfl

/-! ### What the head announces -/

theorem isChunked_withLength (c : Context) (length : Nat) :
    (c.withLength length).response.head.isChunked = false := by
  have hr := c.response.head.isChunked_remove
  exact (ResponseHead.isChunked_setContentLength _ length).trans hr

/-- A window is announced without a word about chunks. -/
theorem isChunked_announceRange (c : Context) (range : ByteRange) :
    (c.announceRange range).response.head.isChunked = c.response.head.isChunked := by
  have hc : Text.sameName "Content-Range" "Transfer-Encoding" = false := by decide
  have ha : Text.sameName "Accept-Ranges" "Transfer-Encoding" = false := by decide
  have hset := fun head : ResponseHead => head.isChunked_set_of_ne range.contentRange hc
  have hset' := fun head : ResponseHead => head.isChunked_set_of_ne "bytes" ha
  unfold announceRange
  split
  · exact (ResponseHead.isChunked_setContentLength _ range.window).trans
      ((hset _).trans (hset' _))
  · rfl

/-- A window that fits the announced length is announced in its place. -/
theorem contentLength_announceRange_of_fits {c : Context} {length : Nat}
    (h : c.response.head.contentLength = some length) {range : ByteRange} (hr : range.Fits length) :
    (c.announceRange range).response.head.contentLength = some range.window := by
  have hlt : range.window < UInt64.size := by
    have hstop := hr.stop_le
    have hlength := ResponseHead.contentLength_lt h
    unfold ByteRange.window
    omega
  unfold announceRange
  split
  · exact ResponseHead.contentLength_setContentLength _ hlt
  · rename_i hp
    rw [hr.whole (Bool.eq_false_iff.2 hp)]
    exact h

/-- The window that was asked for is announced, also when there is nothing to choose from. -/
theorem contentLength_announceRange {c : Context} {length : Nat}
    (h : c.response.head.contentLength = some length) :
    (c.announceRange (c.requestedRange length)).response.head.contentLength
      = some (c.requestedRange length).window := by
  rcases Nat.eq_zero_or_pos length with rfl | hpos
  · have hrange : c.requestedRange 0 = .full 0 := ByteRange.resolve_zero _
    rw [hrange]
    exact h
  · exact contentLength_announceRange_of_fits h (ByteRange.fits_resolve hpos _)

/-- A window is cut off where its announced length ends. -/
theorem announcedBy_ofWindow {head : ResponseHead} {length : Nat}
    (h : head.contentLength = some length) (found : Except Fault Source) :
    (Work.ofWindow (found.map fun rest => rest.take length)).AnnouncedBy head := by
  cases found with
  | ok rest => exact .inr ⟨length, h, Source.endsBy_take _ _⟩
  | error cause => trivial

theorem announcedBy_prepare (c : Context) {what : Sending} (hs : what.size < UInt64.size) :
    (c.prepare what).2.AnnouncedBy (c.prepare what).1.response.head := by
  have hlength : ∀ n, n < UInt64.size → (c.withLength n).response.head.contentLength = some n :=
    fun n hn => ResponseHead.contentLength_setContentLength _ hn
  cases what with
  | empty status => trivial
  | bytes data => exact ⟨isChunked_withLength c _, hlength _ hs⟩
  | file file =>
    simp only [prepare]
    split
    · trivial
    · have hannounced := contentLength_announceRange (hlength file.length hs)
      exact announcedBy_ofWindow hannounced (file.seek _)
  | source source =>
    simp only [prepare]
    split
    · rename_i length hl
      exact announcedBy_ofWindow (contentLength_announceRange hl) (source.skip _)
    · exact .inl (ResponseHead.isChunked_setChunked _)

end Context

/-! ### What the work comes to -/

namespace Work

theorem continues_write (size : Nat) (r : Response) (work : Work) :
    r.Continues (work.write size r).2 := by
  cases work with
  | leave outcome => cases outcome <;> exact .refl r
  | put data => exact r.continues_send data
  | copy source => exact Response.continues_writeFrom size source r

theorem head_write {size : Nat} {r : Response} (ho : r.isClosed = false)
    (hf : r.sink.Flushes) (work : Work) : (work.write size r).2.head = r.head := by
  cases work with
  | leave outcome => cases outcome <;> rfl
  | put data => exact (Response.adds_send ho hf data).head
  | copy source =>
    obtain ⟨_, _, hhead, _⟩ := Response.writeFrom_pieces size source ho hf
    exact hhead

/-- The request is released with what the work has done. On either engine, a source is copied in one
loop. -/
theorem run_eq_release {c : Context} (h : c.response.sink.Flushes) (work : Work) :
    let out := work.write (max c.router.config.bufferSize 1) c.response
    work.run c = { c with response := out.2 }.release (failure? out.1) := by
  cases work with
  | leave outcome => cases outcome <;> rfl
  | put data => exact Context.endWith_eq _ _
  | copy source =>
    have hcopied := Context.copied_of_flushes h source
    exact (c.copyOut_eq source).trans (hcopied ▸ Context.endWith_eq _ _)

end Work

namespace Script

open Context (Prepares)

/-- The length of a body that an ending sends as it is. -/
def Ending.size : Ending → Nat
  | send what => what.size
  | sender (some what) => what.size
  | _ => 0

/-- A context that is ready for an ending, and the work that remains. -/
def Ending.prepare (c : Context) : Ending → Context × Work
  | send what => c.prepare what
  | sender (some what) => c.openSender.prepare what
  | sender none => (c.openSender, .leave none)
  | drop => (c, .leave none)
  | abort cause => (c, .leave (some cause))

theorem apply_eq_run (c : Context) (ending : Ending) :
    ending.apply c = (ending.prepare c).2.run (ending.prepare c).1 := by
  cases ending with
  | send what => exact c.send_eq_run what
  | sender what =>
    cases what with
    | none => rfl
    | some what => exact c.openSender.send_eq_run what
  | drop => rfl
  | abort cause => exact Context.drop_release c (some cause)

theorem prepares_ending (c : Context) (ending : Ending) : Prepares c (ending.prepare c).1 := by
  cases ending with
  | send what => exact c.prepares_prepare what
  | sender what =>
    cases what with
    | none => exact c.prepares_openSender
    | some what => exact c.prepares_openSender.trans (c.openSender.prepares_prepare what)
  | drop => exact .refl c
  | abort cause => exact .refl c

/-- Where no flush fails, an ending is one release of the context, after the head has been prepared
and the work has been done. -/
theorem apply_eq_release {c : Context} (h : c.response.sink.Flushes) (ending : Ending) :
    let b := (ending.prepare c).1
    let out := (ending.prepare c).2.write (max c.router.config.bufferSize 1) b.response
    Context.Continues c { b with response := out.2 }
      ∧ ending.apply c = { b with response := out.2 }.release (failure? out.1) := by
  intro b out
  have hcb := (prepares_ending c ending).toContinues
  have hflushes : b.response.sink.Flushes := hcb.response.flushes h
  have hrouter : b.router = c.router := hcb.router
  have hwrite := Work.continues_write (max c.router.config.bufferSize 1) b.response
    (ending.prepare c).2
  refine ⟨hcb.trans (.of_fixed rfl hwrite), ?_⟩
  rw [apply_eq_run, Work.run_eq_release hflushes, hrouter]

theorem announcedBy_ending (c : Context) {ending : Ending} (hs : ending.size < UInt64.size) :
    (ending.prepare c).2.AnnouncedBy (ending.prepare c).1.response.head := by
  cases ending with
  | send what => exact c.announcedBy_prepare hs
  | sender what =>
    cases what with
    | none => trivial
    | some what => exact c.openSender.announcedBy_prepare hs
  | drop => trivial
  | abort cause => trivial

end Script

end HttpContext
