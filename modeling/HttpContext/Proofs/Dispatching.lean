import HttpContext.Context.Schedule
import HttpContext.Proofs.Endings
import Mathlib.Logic.Relation
/-!
A context hops only when it has to, and no action is lost or begins twice, in whatever order the
executors take up their tasks. Main statement: `Script.actions_begin_once`.
-/
namespace HttpContext

/-! ### What decides how a context is passed on -/

namespace Context

/-- Whom a context belongs to, and whether its exchange goes on after its handler has returned. -/
structure Standing where
  router : Router
  worker : Executor
  isAsync : Bool

def standing (c : Context) : Standing := ⟨c.router, c.worker, c.isAsync⟩

theorem standing_of_formEntries {c d : Context} {result : Except Error (List FormEntry)}
    {request : Request} {spool : Spool}
    (hf : c.request.formEntries (some c.limits) c.spool = (result, request, spool))
    (hd : d.standing = { c with request, spool }.standing) : d.standing = c.standing := by
  obtain ⟨input, entries, rfl⟩ := request_of_formEntries hf
  exact hd

theorem standing_multipart (c : Context) : c.multipart.2.standing = c.standing := by
  rcases c.multipart_cases with ⟨form, _, hc⟩
    | ⟨_, request, spool, ⟨cause, hf, hc⟩ | ⟨entries, form, hf, _, hc⟩⟩ <;> rw [hc]
  · rfl
  · exact standing_of_formEntries hf rfl
  · exact standing_of_formEntries hf rfl

theorem standing_form (c : Context) : c.form.2.standing = c.standing := by
  rcases c.form_cases with ⟨_, hc⟩ | ⟨_, ⟨fields, _, hc⟩
    | ⟨_, request, spool, ⟨cause, hf, hc⟩ | ⟨entries, fields, hf, _, hc⟩⟩⟩ <;> rw [hc]
  · exact standing_multipart c
  · rfl
  · exact standing_of_formEntries hf rfl
  · exact standing_of_formEntries hf rfl

theorem standing_defaultType (c : Context) (type : MediaType) :
    (c.defaultType type).standing = c.standing := by
  unfold defaultType
  split <;> rfl

theorem standing_markAsync (c : Context) :
    c.markAsync.standing = ⟨c.router, c.worker, true⟩ := by
  unfold markAsync
  split
  · rename_i hasync
    rw [standing, isAsync, hasync]
  · rfl

/-- An executor that the context belongs to already is no reason to hop. -/
theorem passTo_of_same {c : Context} {executor : Executor} (h : c.worker.same executor = true) :
    c.passTo executor = (.inline, c) := by
  rw [passTo, if_pos h]

theorem passTo_of_not_same {c : Context} {executor : Executor}
    (h : c.worker.same executor = false) :
    (c.passTo executor).1 = .submitted executor
      ∧ (c.passTo executor).2.standing = ⟨c.router, executor, true⟩ := by
  have hmark := standing_markAsync c
  simp only [standing, Standing.mk.injEq] at hmark
  rw [passTo, h]
  refine ⟨rfl, ?_⟩
  simp only [Bool.false_eq_true, ↓reduceIte, standing, Standing.mk.injEq, true_and]
  exact ⟨hmark.1, hmark.2.2⟩

end Context

namespace Script

open Context (standing Standing)

/-- Only passing a context on changes whom it belongs to. -/
theorem standing_act (h : Handler) (action : Action) :
    (act h action).2.context.standing = h.context.standing := by
  cases action
  case form => exact h.context.standing_form
  case multipart => exact h.context.standing_multipart
  case defaultType type => exact h.context.standing_defaultType type
  -- an attribute or an upload is looked up, whether it is found or not
  all_goals first
    | rfl
    | simp only [act]
      split <;> rfl

/-! ### How a chain of actions has to begin -/

variable {router : Router} {initial : Executor} {before tasks : List Task} {task : Task}

/-- The executor that a context belongs to after these passes: the one that it hopped to last. -/
def home (initial : Executor) (tasks : List Task) : Executor :=
  (tasks.filterMap Task.executor?).getLast?.getD initial

/-- Where an action goes when the context belongs to `home`: to the executor that is asked for,
unless that is where the context is already. -/
def Pass.hop (router : Router) (home : Executor) : Pass → Context.Hop
  | .detach => .inline
  | .dispatch executor =>
    let target := executor.getD router.worker
    if home.same target then .inline else .submitted target

/-- The action begins as it has to after those before it. It finds itself asynchronous exactly when
there has been a hop or a detachment, its own among them. -/
structure BeginsAfter (router : Router) (initial : Executor) (before : List Task) (task : Task) :
    Prop where
  hop : task.hop = task.pass.hop router (home initial before)
  isAsync : task.handler.context.isAsync = (before ++ [task]).any Task.isHopOrDetach

/-- Each action of a chain begins as it has to. -/
def Lawful (router : Router) (initial : Executor) (tasks : List Task) : Prop :=
  ∀ before task after, tasks = before ++ task :: after → BeginsAfter router initial before task

theorem lawful_nil : Lawful router initial [] := by
  intro before task after h
  cases before <;> cases h

theorem Lawful.concat (h : Lawful router initial tasks)
    (ht : BeginsAfter router initial tasks task) : Lawful router initial (tasks ++ [task]) := by
  intro before other after heq
  rcases List.eq_nil_or_concat after with rfl | ⟨after, last, rfl⟩
  · obtain ⟨rfl, hlast⟩ := List.append_inj' heq rfl
    cases hlast
    exact ht
  · rw [List.concat_eq_append, ← List.cons_append, ← List.append_assoc] at heq
    exact h before other after (List.append_inj' heq rfl).1

/-- What a chain leaves of its context for the next pass. -/
def standingAfter (router : Router) (initial : Executor) (tasks : List Task) : Standing :=
  ⟨router, home initial tasks, tasks.any Task.isHopOrDetach⟩

theorem standingAfter_concat (router : Router) (initial : Executor) (tasks : List Task)
    (task : Task) :
    standingAfter router initial (tasks ++ [task])
      = ⟨router, task.executor?.getD (home initial tasks),
        tasks.any Task.isHopOrDetach || task.isHopOrDetach⟩ := by
  have hhome : home initial (tasks ++ [task]) = task.executor?.getD (home initial tasks) := by
    rw [home, home, List.filterMap_append]
    cases h : task.executor? <;> simp [h]
  simp only [standingAfter, hhome, List.any_append, List.any_cons, List.any_nil, Bool.or_false]

theorem passOn_dispatch (h : Handler) (executor : Option Executor) (steps : List Step) :
    h.passOn (.dispatch executor) steps =
      { pass := .dispatch executor
        hop := (h.context.passTo (executor.getD h.context.router.worker)).1
        handler := { h with
          context := (h.context.passTo (executor.getD h.context.router.worker)).2 }
        finds := (dispatch h executor).1
        steps } := by
  cases executor <;> rfl

/-- A context hops where it has to, and it stands afterwards as the chain says. -/
theorem passOn_spec {h : Handler} (hs : h.context.standing = standingAfter router initial tasks)
    (pass : Pass) (steps : List Step) :
    (h.passOn pass steps).hop = pass.hop router (home initial tasks)
      ∧ (h.passOn pass steps).handler.context.standing
        = standingAfter router initial (tasks ++ [h.passOn pass steps]) := by
  have hrouter : h.context.router = router := congrArg Standing.router hs
  have hworker : h.context.worker = home initial tasks := congrArg Standing.worker hs
  rw [standingAfter_concat]
  cases pass with
  | detach =>
    have hmark : (h.passOn .detach steps).handler.context.standing
        = ⟨h.context.router, h.context.worker, true⟩ := h.context.standing_markAsync
    rw [hrouter, hworker] at hmark
    refine ⟨rfl, hmark.trans ?_⟩
    simp [Task.isHopOrDetach, Task.executor?, Handler.passOn]
  | dispatch executor =>
    rw [passOn_dispatch, hrouter, Pass.hop, ← hworker]
    cases hsame : h.context.worker.same (executor.getD router.worker) with
    | true =>
      rw [Context.passTo_of_same hsame, hworker]
      simp [Task.isHopOrDetach, Task.executor?, hs, standingAfter]
    | false =>
      obtain ⟨hhop, hstanding⟩ := Context.passTo_of_not_same hsame
      rw [hrouter] at hstanding
      simp [Task.isHopOrDetach, Task.executor?, hhop, hstanding]

theorem beginsAfter_passOn {h : Handler}
    (hs : h.context.standing = standingAfter router initial tasks) (pass : Pass)
    (steps : List Step) : BeginsAfter router initial tasks (h.passOn pass steps) := by
  obtain ⟨hhop, hstanding⟩ := passOn_spec hs pass steps
  have hpass : (h.passOn pass steps).pass = pass := by cases pass <;> rfl
  exact ⟨by rw [hhop, hpass], congrArg Standing.isAsync hstanding⟩

/-! ### One handler on a floor -/

namespace Floor

variable {f g : Floor} {first h : Handler} {plan steps : List Step}

/-- Every action that was passed a context, begun or not. -/
def handed (f : Floor) : List Task := f.begun ++ f.waiting

/-- The replies, with those that are certain to come next. -/
def told (f : Floor) : List Reply := f.replies ++ f.waiting.map Task.finds

/-- What is at work or will be taken up. -/
def pending (f : Floor) : List (Handler × List Step) :=
  f.running ++ f.waiting.map fun task => (task.handler, task.steps)

/-- The handler has come so far that these steps are left to it: with what has been done they make
up the whole handler. -/
structure Left (router : Router) (initial : Executor) (first : Handler) (plan : List Step)
    (f : Floor) (h : Handler) (steps : List Step) : Prop where
  passes : passes plan = f.handed.map Task.call ++ passes steps
  run : run first plan = (f.told ++ (run h steps).1, (run h steps).2)
  standing : h.context.standing = standingAfter router initial f.handed

/-- All has been done. -/
structure Over (first : Handler) (plan : List Step) (f : Floor) : Prop where
  pending : f.pending = []
  passes : f.begun.map Task.call = passes plan
  run : (f.replies, f.finished) = ((run first plan).1, [(run first plan).2])

/-- What holds at every moment while a handler is run: its actions have been passed on as they have
to be, and there is exactly one of them to go on, until it is over. -/
structure Keeps (router : Router) (initial : Executor) (first : Handler) (plan : List Step)
    (f : Floor) : Prop where
  lawful : Lawful router initial f.handed
  submitted : f.submitted = f.handed.filterMap Task.submission?
  stage : Over first plan f ∨ f.finished = [] ∧ ∃ h steps, f.pending = [(h, steps)]
    ∧ Left router initial first plan f h steps

theorem keeps_opening (hs : first.context.standing = ⟨router, initial, false⟩) :
    Keeps router initial first plan { running := [(first, plan)] } where
  lawful := lawful_nil
  submitted := rfl
  stage := .inr ⟨rfl, first, plan, rfl, rfl, rfl, hs⟩

/-- Who is at work is the only one. -/
theorem alone_of_running {before after : List (Handler × List Step)}
    {job : Handler × List Step} {work : Handler × List Step}
    (hp : f.pending = [work]) (hr : f.running = before ++ job :: after) :
    before = [] ∧ after = [] ∧ job = work ∧ f.waiting = [] := by
  rw [pending, hr, List.append_assoc, List.append_eq_singleton_iff] at hp
  rcases hp with ⟨rfl, hrest⟩ | ⟨_, hrest⟩
  · rw [List.cons_append, List.cons_eq_cons, List.append_eq_nil_iff, List.map_eq_nil_iff] at hrest
    exact ⟨rfl, hrest.2.1, hrest.1, hrest.2.2⟩
  · cases hrest

/-- So is a task that waits. -/
theorem alone_of_waiting {before after : List Task} {task : Task}
    {work : Handler × List Step} (hp : f.pending = [work])
    (hw : f.waiting = before ++ task :: after) :
    before = [] ∧ after = [] ∧ (task.handler, task.steps) = work ∧ f.running = [] := by
  rw [pending, hw, List.map_append, List.map_cons, List.append_eq_singleton_iff] at hp
  rcases hp with ⟨hrunning, hrest⟩ | ⟨_, hrest⟩
  · rw [List.append_eq_singleton_iff] at hrest
    rcases hrest with ⟨hbefore, hrest⟩ | ⟨_, hrest⟩
    · rw [List.cons_eq_cons, List.map_eq_nil_iff] at hrest
      exact ⟨List.map_eq_nil_iff.1 hbefore, hrest.2, hrest.1, hrunning⟩
    · cases hrest
  · rw [List.append_eq_nil_iff] at hrest
    cases hrest.2

/-- An executor that takes up its task only begins what was passed on before. -/
theorem Keeps.takeUp (hf : Keeps router initial first plan f) {before after : List Task}
    {task : Task} (hw : f.waiting = before ++ task :: after) :
    Keeps router initial first plan ({ f with waiting := before ++ after }.begin task) := by
  rcases hf.stage with hover | ⟨hfinished, h, steps, hpending, hleft⟩
  · have hnone := hover.pending
    rw [pending, hw, List.append_eq_nil_iff, List.map_eq_nil_iff, List.append_eq_nil_iff] at hnone
    cases hnone.2.2
  · obtain ⟨rfl, rfl, hwork, hrunning⟩ := alone_of_waiting hpending hw
    cases hwork
    have hhanded : ({ f with waiting := [] ++ [] }.begin task).handed = f.handed := by
      simp [handed, begin, hw]
    have htold : ({ f with waiting := [] ++ [] }.begin task).told = f.told := by
      simp [told, begin, hw]
    refine ⟨?_, ?_, .inr ⟨hfinished, task.handler, task.steps, ?_, ?_, ?_, ?_⟩⟩
    · rw [hhanded]
      exact hf.lawful
    · rw [hhanded]
      exact hf.submitted
    · simp [pending, begin, hrunning]
    · rw [hhanded]
      exact hleft.passes
    · rw [htold]
      exact hleft.run
    · rw [hhanded]
      exact hleft.standing

/-- Whether it begins at once or not, the action has been passed the context. -/
theorem hand_spec (hr : f.running = []) (hw : f.waiting = []) (task : Task) :
    (f.hand task).handed = f.handed ++ [task]
      ∧ (f.hand task).told = f.told ++ [task.finds]
      ∧ (f.hand task).pending = [(task.handler, task.steps)]
      ∧ (f.hand task).submitted = f.submitted ++ [task].filterMap Task.submission?
      ∧ (f.hand task).finished = f.finished := by
  unfold hand
  cases hhop : task.hop with
  | inline =>
    simp [handed, told, pending, begin, hr, hw, hhop, Task.submission?, Task.executor?]
  | submitted executor =>
    simp [handed, told, pending, hr, hw, hhop, Task.submission?, Task.executor?]

/-- An action that passes its context on leaves the rest to the next one. -/
theorem keeps_hand (hf : Keeps router initial first plan f) (hw : f.waiting = [])
    (hfinished : f.finished = [])
    (hleft : Left router initial first plan f h steps) {pass : Pass} {rest : List Step}
    (hpasses : passes steps = (pass, rest) :: passes rest)
    (hrun : run h steps = ((h.passOn pass rest).finds :: (run (h.passOn pass rest).handler rest).1,
      (run (h.passOn pass rest).handler rest).2)) :
    Keeps router initial first plan ({ f with running := [] }.hand (h.passOn pass rest)) := by
  obtain ⟨hhanded, htold, hpending, hsubmitted, hsame⟩ :=
    hand_spec (f := { f with running := [] }) rfl hw (h.passOn pass rest)
  have hcall : (h.passOn pass rest).call = (pass, rest) := by cases pass <;> rfl
  have hsteps : (h.passOn pass rest).steps = rest := congrArg Prod.snd hcall
  have hbegins := beginsAfter_passOn hleft.standing pass rest
  refine ⟨?_, ?_, .inr ⟨hsame.trans hfinished, _, _, hpending, ?_, ?_, ?_⟩⟩
  · rw [hhanded]
    exact hf.lawful.concat hbegins
  · rw [hsubmitted, hhanded, List.filterMap_append]
    exact congrArg (· ++ _) hf.submitted
  · rw [hhanded, List.map_append, List.append_assoc, List.map_singleton, hcall, hsteps]
    exact hleft.passes.trans (by rw [hpasses]; rfl)
  · rw [htold, hsteps, List.append_assoc]
    exact hleft.run.trans (by rw [hrun]; rfl)
  · rw [hhanded]
    exact (passOn_spec hleft.standing pass rest).2

/-- An action that passes its context on no more was the last one. -/
theorem over_of_left (hleft : Left router initial first plan f h steps) (hw : f.waiting = [])
    (hnone : passes steps = []) (hpending : g.pending = []) (hbegun : g.begun = f.begun)
    (hreplies : g.replies = f.replies ++ (run h steps).1)
    (hfinished : g.finished = [(run h steps).2]) : Over first plan g where
  pending := hpending
  passes := by
    have hpasses := hleft.passes
    rw [hnone, List.append_nil, handed, hw, List.append_nil] at hpasses
    rw [hbegun, hpasses]
  run := by
    have hrun := hleft.run
    rw [told, hw, List.map_nil, List.append_nil] at hrun
    rw [hrun, hreplies, hfinished]

/-- One step of the action at work. -/
theorem Keeps.work (hf : Keeps router initial first plan f)
    {before after : List (Handler × List Step)}
    (hr : f.running = before ++ (h, steps) :: after) :
    Keeps router initial first plan ({ f with running := before ++ after }.work h steps) := by
  rcases hf.stage with hover | ⟨hfinished, other, rest, hpending, hleft⟩
  · have hnone := hover.pending
    rw [pending, hr, List.append_eq_nil_iff, List.append_eq_nil_iff] at hnone
    cases hnone.1.2
  obtain ⟨rfl, rfl, hwork, hw⟩ := alone_of_running hpending hr
  cases hwork
  cases steps with
  | nil =>
    refine ⟨hf.lawful, hf.submitted, .inl (over_of_left hleft hw rfl ?_ rfl ?_ ?_)⟩
    · simp [pending, Floor.work, hw]
    · exact (List.append_nil _).symm
    · simp [Floor.work, hfinished, Script.run]
  | cons step rest =>
    cases step with
    | finish ending =>
      refine ⟨hf.lawful, hf.submitted, .inl (over_of_left hleft hw rfl ?_ rfl rfl ?_)⟩
      · simp [pending, Floor.work, hw]
      · simp [Floor.work, hfinished, Script.run]
    | act action =>
      -- nothing is passed on, and the reply is the first of those that were to come
      refine ⟨hf.lawful, hf.submitted,
        .inr ⟨hfinished, (act h action).2, rest, ?_, hleft.passes, ?_, ?_⟩⟩
      · simp [pending, Floor.work, hw]
      · rw [hleft.run]
        simp [told, Floor.work, hw, Script.run]
      · exact (standing_act h action).trans hleft.standing
    | dispatch executor => exact keeps_hand hf hw hfinished hleft rfl rfl
    | detach => exact keeps_hand hf hw hfinished hleft rfl rfl

theorem Keeps.moves (hf : Keeps router initial first plan f) (hm : f.Moves g) :
    Keeps router initial first plan g := by
  cases hm with
  | work at_work => exact hf.work at_work
  | takeUp given => exact hf.takeUp given

/-- Nothing is left waiting for something else. -/
theorem Keeps.over (hf : Keeps router initial first plan f) (hstuck : ∀ g, ¬f.Moves g) :
    Over first plan f := by
  rcases hf.stage with hover | ⟨_, h, steps, hpending, _⟩
  · exact hover
  · cases hr : f.running with
    | cons job rest => cases hstuck _ (.work (show f.running = [] ++ job :: rest from hr))
    | nil =>
      cases hw : f.waiting with
      | cons task rest => cases hstuck _ (.takeUp (show f.waiting = [] ++ task :: rest from hw))
      | nil =>
        rw [pending, hr, hw] at hpending
        cases hpending

theorem not_moves (hr : f.running = []) (hw : f.waiting = []) (g : Floor) : ¬f.Moves g := by
  intro hm
  cases hm with
  | work at_work =>
    rw [hr] at at_work
    exact List.append_ne_nil_of_right_ne_nil _ (List.cons_ne_nil _ _) at_work.symm
  | takeUp given =>
    rw [hw] at given
    exact List.append_ne_nil_of_right_ne_nil _ (List.cons_ne_nil _ _) given.symm

/-! ### A floor comes to rest -/

/-- How much is left to be done: each step counts twice, since a task that is given to an executor
has to be taken up before it goes on. -/
def load (f : Floor) : Nat :=
  2 * (f.running.flatMap Prod.snd).length + f.running.length
    + (2 * (f.waiting.flatMap Task.steps).length + 2 * f.waiting.length)

theorem load_begin (f : Floor) (task : Task) :
    (f.begin task).load = f.load + 2 * task.steps.length + 1 := by
  simp only [load, begin, List.flatMap_append, List.flatMap_singleton, List.length_append,
    List.length_singleton]
  omega

theorem load_hand_le (f : Floor) (task : Task) :
    (f.hand task).load ≤ f.load + 2 * task.steps.length + 2 := by
  unfold hand
  cases task.hop with
  | inline =>
    have hbegin := f.load_begin task
    simp only
    omega
  | submitted executor =>
    simp only [load, List.flatMap_append, List.flatMap_singleton, List.length_append,
      List.length_singleton]
    omega

theorem load_work (f : Floor) (h : Handler) (steps : List Step) :
    (f.work h steps).load < f.load + 2 * steps.length + 1 := by
  cases steps with
  | nil =>
    simp only [Floor.work, load, List.length_nil]
    omega
  | cons step rest =>
    rw [List.length_cons]
    cases step with
    | finish ending =>
      simp only [Floor.work, load]
      omega
    | act action =>
      simp only [Floor.work, load, List.flatMap_append, List.flatMap_singleton,
        List.length_append, List.length_singleton]
      omega
    | dispatch executor =>
      have hle := f.load_hand_le (h.passOn (.dispatch executor) rest)
      have hsteps : (h.passOn (.dispatch executor) rest).steps = rest := rfl
      rw [hsteps] at hle
      simp only [Floor.work]
      omega
    | detach =>
      have hle := f.load_hand_le (h.passOn .detach rest)
      have hsteps : (h.passOn .detach rest).steps = rest := rfl
      rw [hsteps] at hle
      simp only [Floor.work]
      omega

theorem Moves.load_lt (hm : f.Moves g) : g.load < f.load := by
  cases hm with
  | @work before after h steps at_work =>
    have hlt := load_work { f with running := before ++ after } h steps
    have hload : f.load = load { f with running := before ++ after } + 2 * steps.length + 1 := by
      simp only [load, at_work, List.flatMap_append, List.flatMap_cons, List.length_append,
        List.length_cons]
      omega
    omega
  | @takeUp before after task given =>
    have hbegin := load_begin { f with waiting := before ++ after } task
    have hload : f.load
        = load { f with waiting := before ++ after } + 2 * task.steps.length + 2 := by
      simp only [load, given, List.flatMap_append, List.flatMap_cons, List.length_append,
        List.length_cons]
      omega
    omega

theorem acc_moves (f : Floor) : Acc (fun g f => Moves f g) f :=
  Subrelation.accessible (fun hm => hm.load_lt) (InvImage.accessible load (Nat.lt_wfRel.wf.apply _))

end Floor

/-- Passing a request on from executor to executor loses no action and repeats none, in whatever
order the executors take up their tasks. Each pass hops only when it has to, and only then is a task
given to an executor; the context knows that its exchange is asynchronous from the first hop or
detachment on. There is always a next step until the request has ended, and there are finitely
many. -/
theorem actions_begin_once (engine : Engine) (router : Router) (io : Executor) (head : RequestHead)
    (input : Option Source) (peer : Option Peer) (sink : Sink) (spool : Spool)
    (plan : List Step) :
    let initial := match engine with
      | .stream => router.worker
      | .callback => io
    let first : Handler :=
      { context := .start engine router io { head, input, peer } sink spool }
    Acc (fun g f => Floor.Moves f g) { running := [(first, plan)] }
    ∧ ∀ f, Relation.ReflTransGen Floor.Moves { running := [(first, plan)] } f →
      f.begun.map Task.call <+: passes plan
      ∧ (∀ before task after, f.begun ++ f.waiting = before ++ task :: after →
        BeginsAfter router initial before task)
      ∧ f.submitted = (f.begun ++ f.waiting).filterMap Task.submission?
      ∧ (∀ h steps, (h, steps) ∈ f.running →
        h.context.isAsync = f.begun.any Task.isHopOrDetach)
      ∧ ((∀ g, ¬f.Moves g) →
        f.begun.map Task.call = passes plan ∧ f.waiting = []
        ∧ f.replies = (serve engine router io { head, input, peer } sink spool plan).1
        ∧ f.finished = [(serve engine router io { head, input, peer } sink spool plan).2]) := by
  intro initial first
  refine ⟨Floor.acc_moves _, ?_⟩
  intro f hreach
  have hstart : first.context.standing = ⟨router, initial, false⟩ := by
    cases engine <;> rfl
  have hkeeps : Floor.Keeps router initial first plan f := by
    induction hreach with
    | refl => exact Floor.keeps_opening hstart
    | tail _ hm ih => exact ih.moves hm
  refine ⟨?_, hkeeps.lawful, hkeeps.submitted, ?_, ?_⟩
  · rcases hkeeps.stage with hover | ⟨_, h, steps, _, hleft⟩
    · exact hover.passes ▸ List.prefix_refl _
    · rw [hleft.passes, Floor.handed, List.map_append, List.append_assoc]
      exact List.prefix_append _ _
  · intro h steps hmem
    rcases hkeeps.stage with hover | ⟨_, other, rest, hpending, hleft⟩
    · have hnone := (List.append_eq_nil_iff.1 hover.pending).1
      rw [hnone] at hmem
      cases hmem
    · obtain ⟨before, after, hr⟩ := List.append_of_mem hmem
      obtain ⟨-, -, hwork, hw⟩ := Floor.alone_of_running hpending hr
      cases hwork
      have hasync := congrArg Standing.isAsync hleft.standing
      rwa [Floor.handed, hw, List.append_nil] at hasync
  · intro hstuck
    have hover := hkeeps.over hstuck
    obtain ⟨hreplies, hfinished⟩ := Prod.mk.inj hover.run
    exact ⟨hover.passes, List.map_eq_nil_iff.1 (List.append_eq_nil_iff.1 hover.pending).2,
      hreplies, hfinished⟩

/-- A request that goes from the thread of the callback engine to the worker, to another executor
and, after a detachment, back to the worker. -/
theorem actions_begin_once_there_and_back :
    let worker := Executor.pool 1 "workers" 2
    let other := Executor.pool 2 "other" 1
    let router : Router := { config := .default ⟨"/tmp", 1⟩, worker }
    let head : RequestHead := { method := .get, path := "/" }
    let plan : List Step := [.dispatch none, .dispatch (some other), .detach, .dispatch none]
    let first : Handler :=
      { context := .start .callback router (.ioThread 0 "io") { head, input := none } {} {} }
    ∃ f, Relation.ReflTransGen Floor.Moves { running := [(first, plan)] } f
      ∧ f.submitted.map Prod.fst = [worker, other, worker]
      ∧ f.begun.map Task.call = passes plan
      ∧ f.begun.map (fun task => task.handler.context.isAsync) = [true, true, true, true] := by
  intro worker other router head plan first
  have hopening : Relation.ReflTransGen Floor.Moves { running := [(first, plan)] } _ := .refl
  have hworker := (hopening.tail
    (.work (show _ = [] ++ (first, plan) :: [] from rfl))).tail
    (.takeUp (show _ = [] ++ _ :: [] from rfl))
  have hother := (hworker.tail
    (.work (show _ = [] ++ (_, _) :: [] from rfl))).tail
    (.takeUp (show _ = [] ++ _ :: [] from rfl))
  have hdetached := hother.tail (.work (show _ = [] ++ (_, _) :: [] from rfl))
  have hback := (hdetached.tail
    (.work (show _ = [] ++ (_, _) :: [] from rfl))).tail
    (.takeUp (show _ = [] ++ _ :: [] from rfl))
  have hend := hback.tail (.work (show _ = [] ++ (_, _) :: [] from rfl))
  obtain ⟨-, hall⟩ := actions_begin_once .callback router (.ioThread 0 "io") head none none {} {}
    plan
  obtain ⟨-, -, -, -, hover⟩ := hall _ hend
  obtain ⟨hbegun, -⟩ := hover (Floor.not_moves rfl rfl)
  exact ⟨_, hend, rfl, hbegun, rfl⟩

end Script

end HttpContext
