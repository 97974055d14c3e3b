import Mathlib.Order.WellFounded
import Salts.CFlowChartActions

/-!
A microstep is all or nothing.  Before it publishes nothing of what is published changes, and every
effect it stages is in the journal; behind its last step the journal is either committed or
discarded, in order and once.
-/

namespace Salts.CFlow.ChartImpl

open MicrostepEvent
open MicrostepPoint
open Option (some)

variable {c : ChartImpl} {σ ε : Type}

inductive Callback.Child : Callback σ ε → Callback σ ε → Prop
  | raise (event : Option InternalEvent) (k : Option String → Callback σ ε) (r : Option String) :
      Child (k r) (.raise event k)
  | stage (ticket : Option ε) (k : Option String → Callback σ ε) (r : Option String) :
      Child (k r) (.stage ticket k)

attribute [local simp] stagedOf committedOf discardedOf

variable {log : List (MicrostepEvent ε)} {p q : MicrostepPoint c σ ε} {effects : List ε} {ok : Bool}
  {a : MicrostepAction}

namespace MicrostepState

structure Open (s : MicrostepState c σ ε) : Prop where
  unpublished : .published ∉ s.log
  journal : stagedOf s.log = s.stagedEffects
  committed : committedOf s.log = []
  discarded : discardedOf s.log = []

structure PublishedLog (log : List (MicrostepEvent ε)) : Prop where
  discarded : discardedOf log = []
  refused : ∀ status, .refused status ∉ log
  order : ∃ before after, log = before ++ .published :: after ∧ .cancelled ∉ before ∧
    committedOf before = []

def Stands (s : MicrostepState c σ ε) : MicrostepPoint c σ ε → Prop
  | .start => ∀ x ∈ s.log, x = .cancelled
  | .tasks _ => s.Open ∧ ∀ status, .refused status ∉ s.log
  | .calling _ _ raise effect _ =>
    s.Open ∧ ∀ status, .refused status ∈ s.log → raise.isSome = true ∨ effect.isSome = true
  | .discarding effects outcome =>
    .published ∉ s.log ∧ stagedOf s.log = discardedOf s.log ++ effects ∧ committedOf s.log = [] ∧
      outcome ≠ .ok ∧ (outcome = .cancelled → s.terminal.isSome = true)
  | .committing effects => PublishedLog s.log ∧ stagedOf s.log = committedOf s.log ++ effects
  | .finished .ok => PublishedLog s.log ∧ stagedOf s.log = committedOf s.log
  | .finished _ =>
    .published ∉ s.log ∧ stagedOf s.log = discardedOf s.log ∧ committedOf s.log = [] ∧
      s.terminal.isSome = true

structure Transacts (tr : Transaction c) (s₀ s : MicrostepState c σ ε) : Prop where
  untouched : .published ∉ s.log → s.published = s₀.published
  cleared : .published ∉ s.log → s.terminal.isSome = true → s.internal = [] ∧ s.completions = []
  cancelled : .published ∉ s.log → .cancelled ∈ s.log → s.terminal = some .cancel
  exits : tr = .controlledExit → s.exitRequested = true
  stands : s.Stands s.point

structure Beside (s t : MicrostepState c σ ε) : Prop where
  published : t.published = s.published
  point : t.point = s.point
  effects : t.stagedEffects = s.stagedEffects
  exits : s.exitRequested = true → t.exitRequested = true
  change : (t.terminal = s.terminal ∧ t.log = s.log ∧
      (s.internal = [] ∧ s.completions = [] → t.internal = [] ∧ t.completions = [])) ∨
    (s.terminal = none ∧ t.terminal.isSome = true ∧ t.internal = [] ∧ t.completions = [] ∧
      (t.log = s.log ∨ (t.log = s.log ++ [.cancelled] ∧ t.terminal = some .cancel)))

variable {env : InstanceConfig σ ε} {tr : Transaction c} {s s₀ t : MicrostepState c σ ε}

section

variable (s : MicrostepState c σ ε)

theorem winTerminal_eq (outcome : TerminalOutcome) :
    (s.terminal.isSome = true ∧ s.winTerminal outcome = s) ∨
      (s.terminal = none ∧ s.winTerminal outcome = { s with
        terminal := some outcome, internal := [], completions := [], stagedEvents := []
        stagedCompletions := [] }) := by
  cases hterm : s.terminal <;> simp [winTerminal, hterm]

theorem Beside.refl : Beside s s :=
  ⟨rfl,rfl,rfl,id,.inl ⟨rfl,rfl,id⟩⟩

theorem beside_winTerminal (outcome : TerminalOutcome) : Beside s (s.winTerminal outcome) := by
  rcases winTerminal_eq s outcome with ⟨-,hwin⟩ | ⟨hterm,hwin⟩ <;> rw [hwin]
  · exact .refl s
  · exact ⟨rfl,rfl,rfl,id,.inr ⟨hterm,rfl,rfl,rfl,.inl rfl⟩⟩

theorem beside_cancel : Beside s s.cancel := by
  rw [cancel]
  split
  · exact .refl s
  rename_i hterm
  rcases winTerminal_eq s .cancel with ⟨hsome,-⟩ | ⟨hnone,hwin⟩
  · exact absurd hsome hterm
  · rw [hwin]
    exact ⟨rfl,rfl,rfl,id,.inr ⟨hnone,rfl,rfl,rfl,.inr ⟨rfl,rfl⟩⟩⟩

theorem beside_close : Beside s s.close := by
  rw [close]
  split
  · exact .refl s
  · exact beside_winTerminal s .close

theorem beside_requestExit : Beside s s.requestExit := by
  rw [requestExit]
  split
  · exact .refl s
  · exact ⟨rfl,rfl,rfl,fun _ => rfl,.inl ⟨rfl,rfl,fun _ => ⟨rfl,rfl⟩⟩⟩

end

theorem PublishedLog.concat {x : MicrostepEvent ε}
    (h : PublishedLog log) (hd : discardedOf [x] = []) (hr : ∀ status, x ≠ .refused status) :
    PublishedLog (log ++ [x]) := by
  obtain ⟨before,after,rfl,hnot,hnone⟩ := h.order
  refine ⟨?_,fun status hmem => ?_,before,after ++ [x],by simp,hnot,hnone⟩
  · rw [discardedOf, List.filterMap_append]
    exact List.append_eq_nil_iff.2 ⟨h.discarded,hd⟩
  · rcases List.mem_append.1 hmem with hmem | hmem
    · exact h.refused status hmem
    · exact hr status (List.mem_singleton.1 hmem).symm

theorem Stands.congr (h : s.Stands p) (hlog : t.log = s.log)
    (heff : t.stagedEffects = s.stagedEffects)
    (hterm : s.terminal.isSome = true → t.terminal.isSome = true) : t.Stands p := by
  have hopen : s.Open → t.Open := fun ho =>
    ⟨hlog ▸ ho.unpublished,by rw [hlog, heff, ho.journal],hlog ▸ ho.committed,hlog ▸ ho.discarded⟩
  cases p with
  | start => exact fun x hx => h x (hlog ▸ hx)
  | tasks rest => exact ⟨hopen h.1,hlog ▸ h.2⟩
  | calling mayFail call raise effect rest => exact ⟨hopen h.1,hlog ▸ h.2⟩
  | discarding effects outcome =>
    obtain ⟨hnp,hst,hcm,hne,hcan⟩ := h
    exact ⟨hlog ▸ hnp,hlog ▸ hst,hlog ▸ hcm,hne,fun ho => hterm (hcan ho)⟩
  | committing effects => exact ⟨hlog ▸ h.1,hlog ▸ h.2⟩
  | finished outcome =>
    cases outcome with
    | ok => exact ⟨hlog ▸ h.1,hlog ▸ h.2⟩
    | failed _ _ | cancelled =>
      obtain ⟨hnp,hst,hcm,hsome⟩ := h
      exact ⟨hlog ▸ hnp,hlog ▸ hst,hlog ▸ hcm,hterm hsome⟩

theorem Stands.note_cancelled (h : s.Stands p) : (s.note .cancelled).Stands p := by
  have hopen : s.Open → (s.note .cancelled).Open := fun ⟨hu,hj,hc,hd⟩ => by
    constructor <;> simp_all [note]
  cases p with
  | start => simpa [Stands, note, or_imp] using h
  | tasks rest => exact ⟨hopen h.1,by simpa [note] using h.2⟩
  | calling mayFail call raise effect rest => exact ⟨hopen h.1,by simpa [note] using h.2⟩
  | discarding effects outcome => simpa [Stands, note] using h
  | committing effects => exact ⟨h.1.concat rfl nofun,by simpa [note] using h.2⟩
  | finished outcome =>
    cases outcome with
    | ok => exact ⟨h.1.concat rfl nofun,by simpa [note] using h.2⟩
    | failed _ _ | cancelled => simpa [Stands, note] using h

theorem Stands.beside (hb : Beside s t) (h : s.Stands s.point) : t.Stands t.point := by
  rw [hb.point]
  rcases hb.change with ⟨hterm,hlog,-⟩ | ⟨-,hsome,-,-,hlog | ⟨hlog,-⟩⟩
  · exact h.congr hlog hb.effects fun hs => hterm ▸ hs
  · exact h.congr hlog hb.effects fun _ => hsome
  · exact h.note_cancelled.congr hlog hb.effects fun _ => hsome

theorem Transacts.beside (hb : Beside s t) (h : Transacts tr s₀ s) : Transacts tr s₀ t := by
  have hpublished : .published ∉ t.log → .published ∉ s.log := by
    rcases hb.change with ⟨-,hlog,-⟩ | ⟨-,-,-,-,hlog | ⟨hlog,-⟩⟩ <;> simp [hlog]
  refine ⟨fun hnp => ?_,fun hnp hsome => ?_,fun hnp hcan => ?_,fun htr => hb.exits (h.exits htr),
    h.stands.beside hb⟩
  · rw [hb.published, h.untouched (hpublished hnp)]
  · rcases hb.change with ⟨hterm,-,hqueues⟩ | ⟨-,-,hinternal,hcompletions,-⟩
    · exact hqueues (h.cleared (hpublished hnp) (hterm ▸ hsome))
    · exact ⟨hinternal,hcompletions⟩
  · rcases hb.change with ⟨hterm,hlog,-⟩ | ⟨hnone,-,-,-,hlog | ⟨-,hterm⟩⟩
    · rw [hterm]
      exact h.cancelled (hpublished hnp) (hlog ▸ hcan)
    · have hold := h.cancelled (hpublished hnp) (hlog ▸ hcan)
      rw [hnone] at hold
      cases hold
    · exact hterm

/-- Whatever the task holds when a step fails: nothing before it has copied the buffers. -/
def Held (s : MicrostepState c σ ε) (effects : List ε) : Prop :=
  match s.point with
  | .start => effects = []
  | .tasks (_ :: _) | .calling _ _ _ _ _ => effects = s.stagedEffects
  | _ => False

/-- Where a step of the task leads, and the journal and the log it leaves. -/
inductive Steps (tr : Transaction c) (s : MicrostepState c σ ε) :
    MicrostepPoint c σ ε → List ε → List (MicrostepEvent ε) → Prop
  | begins (rest : List (Task c)) : s.point = .start → Steps tr s (.tasks rest) [] s.log
  | abandons : tr = .controlledExit → s.point = .start →
    (s.exitRequested = true → s.terminal.isSome = true) →
    Steps tr s (.discarding [] .cancelled) [] s.log
  | fails {effects : List ε} (status : InstanceStatus) (error : String) : s.Held effects →
    Steps tr s (.discarding effects (.failed status error)) [] (s.log ++ [.refused status])
  | next {task : Task c} {rest : List (Task c)} : s.point = .tasks (task :: rest) →
    Steps tr s (.tasks rest) s.stagedEffects s.log
  | enters {task : Task c} {rest : List (Task c)} (mayFail : Bool) (call : Callback σ ε) :
    s.point = .tasks (task :: rest) →
    Steps tr s (.calling mayFail call none none rest) s.stagedEffects s.log
  | returns {mayFail : Bool} {call : Callback σ ε} {rest : List (Task c)} :
    s.point = .calling mayFail call none none rest → Steps tr s (.tasks rest) s.stagedEffects s.log
  | calls {mayFail : Bool} {call call' : Callback σ ε}
    {raise effect : Option (InstanceStatus × String)} {rest : List (Task c)} :
    s.point = .calling mayFail call raise effect rest → Callback.Child call' call →
    Steps tr s (.calling mayFail call' raise effect rest) s.stagedEffects s.log
  | refuses {mayFail : Bool} {call call' : Callback σ ε}
    {raise effect raise' effect' : Option (InstanceStatus × String)} {rest : List (Task c)}
    (status : InstanceStatus) :
    s.point = .calling mayFail call raise effect rest → Callback.Child call' call →
    raise'.isSome = true ∨ effect'.isSome = true →
    Steps tr s (.calling mayFail call' raise' effect' rest) s.stagedEffects (s.log ++ [.refused status])
  | stages {mayFail : Bool} {call call' : Callback σ ε}
    {raise effect : Option (InstanceStatus × String)} {rest : List (Task c)} (e : ε) :
    s.point = .calling mayFail call raise effect rest → Callback.Child call' call →
    Steps tr s (.calling mayFail call' raise effect rest) (s.stagedEffects ++ [e])
      (s.log ++ [.staged e])
  | drops : s.point = .tasks [] → s.terminal.isSome = true →
    Steps tr s (.discarding s.stagedEffects .cancelled) [] s.log
  | discards {e : ε} {effects : List ε} {outcome : MicrostepOutcome} :
    s.point = .discarding (e :: effects) outcome →
    Steps tr s (.discarding effects outcome) s.stagedEffects (s.log ++ [.discarded e])
  | commits {e : ε} {effects : List ε} : s.point = .committing (e :: effects) →
    Steps tr s (.committing effects) s.stagedEffects (s.log ++ [.committed e])
  | finishes {outcome : MicrostepOutcome} : s.point = .discarding [] outcome →
    (∀ status error, outcome ≠ .failed status error) →
    Steps tr s (.finished outcome) s.stagedEffects s.log
  | completes : s.point = .committing [] → Steps tr s (.finished .ok) s.stagedEffects s.log

/-- A step other than the publication and the end of a failure changes the staged side only. -/
structure Stages (tr : Transaction c) (s t : MicrostepState c σ ε) : Prop where
  published : t.published = s.published
  internal : t.internal = s.internal
  completions : t.completions = s.completions
  terminal : t.terminal = s.terminal
  exits : t.exitRequested = s.exitRequested
  steps : Steps tr s t.point t.stagedEffects t.log

theorem stages_fail (tr : Transaction c) (h : s.Held effects)
    (status : InstanceStatus) (error : String) : Stages tr s (({ s with stagedEffects := effects }).fail status error) :=
  ⟨rfl,rfl,rfl,rfl,rfl,.fails status error h⟩

variable {rest : List (Task c)}

theorem stages_taskStep {task : Task c} (hpoint : s.point = .tasks (task :: rest)) (moves : Bool) :
    Stages tr s (s.taskStep env tr moves task rest) := by
  have hheld : s.Held s.stagedEffects := by simp [Held, hpoint]
  have hfail := stages_fail tr hheld
  have hnext : Steps tr s (.tasks rest) s.stagedEffects s.log := .next hpoint
  cases task with
  | call executable phase owner active =>
    simp only [taskStep]
    split
    · exact hfail _ _
    · exact ⟨rfl,rfl,rfl,rfl,rfl,.enters _ _ hpoint⟩
  | fail status error => exact hfail _ _
  | target bits => exact ⟨rfl,rfl,rfl,rfl,rfl,hnext⟩
  | clearCompleted exited => exact ⟨rfl,rfl,rfl,rfl,rfl,hnext⟩
  | complete state =>
    simp only [taskStep]
    split
    · exact hfail _ _
    · exact ⟨rfl,rfl,rfl,rfl,rfl,hnext⟩
  | finalize =>
    simp only [taskStep]
    split
    · exact ⟨rfl,rfl,rfl,rfl,rfl,hnext⟩
    · exact hfail _ _

theorem stages_callStep {mayFail : Bool} {call : Callback σ ε}
    {raise effect : Option (InstanceStatus × String)}
    (hpoint : s.point = .calling mayFail call raise effect rest) :
    Stages tr s (s.callStep env mayFail call raise effect rest) := by
  have hheld : s.Held s.stagedEffects := by simp [Held, hpoint]
  have hfail := stages_fail tr hheld
  cases call with
  | raise event k =>
    simp only [callStep]
    split
    · exact ⟨rfl,rfl,rfl,rfl,rfl,.calls hpoint (.raise event k _)⟩
    split
    · exact ⟨rfl,rfl,rfl,rfl,rfl,.refuses _ hpoint (.raise event k _) (.inl rfl)⟩
    · exact ⟨rfl,rfl,rfl,rfl,rfl,.calls hpoint (.raise event k _)⟩
  | stage ticket k =>
    simp only [callStep]
    split
    · exact ⟨rfl,rfl,rfl,rfl,rfl,.calls hpoint (.stage ticket k _)⟩
    split
    · exact ⟨rfl,rfl,rfl,rfl,rfl,.refuses _ hpoint (.stage ticket k _) (.inr rfl)⟩
    · exact ⟨rfl,rfl,rfl,rfl,rfl,.stages _ hpoint (.stage ticket k _)⟩
  | ret succeeded out error =>
    simp only [callStep]
    split
    · exact hfail _ _
    · exact hfail _ _
    split
    · exact ⟨rfl,rfl,rfl,rfl,rfl,.returns hpoint⟩
    · exact hfail _ _

theorem stages_start (hpoint : s.point = .start) (copies : Bool) :
    Stages tr s (s.start tr copies) := by
  cases copies with
  | true => exact ⟨rfl,rfl,rfl,rfl,rfl,.begins _ hpoint⟩
  | false => exact stages_fail tr (by simp [Held, hpoint]) _ _

/-- The three kinds of steps: on the staged side, the publication, the end of a failure. -/
theorem run_cases (hrun : s.run env tr ok = some t) :
    Stages tr s t ∨ (s.point = .tasks [] ∧ s.mayPublish tr = true ∧ t = s.publish tr) ∨
      ∃ status error, s.point = .discarding [] (.failed status error) ∧
        t = { s.winTerminal .error with point := .finished (.failed status error) } := by
  cases hpoint : s.point with
  | start =>
    simp only [run, hpoint] at hrun
    split at hrun
    · split at hrun
      · rename_i hguard
        cases hrun
        exact .inl ⟨rfl,rfl,rfl,rfl,rfl,.abandons rfl hpoint fun he => by simpa [he] using hguard⟩
      · exact .inl (some.inj hrun ▸ stages_start hpoint ok)
    · exact .inl (some.inj hrun ▸ stages_start hpoint ok)
  | tasks rest =>
    cases rest with
    | nil =>
      simp only [run, hpoint, commit] at hrun
      split at hrun <;> cases hrun
      · exact .inr (.inl ⟨rfl,‹_›,rfl⟩)
      · have hsome : s.terminal.isSome = true := by
          cases tr <;> cases hterm : s.terminal <;> simp_all [mayPublish]
        exact .inl ⟨rfl,rfl,rfl,rfl,rfl,.drops hpoint hsome⟩
    | cons task rest =>
      simp only [run, hpoint] at hrun
      exact .inl (some.inj hrun ▸ stages_taskStep hpoint ok)
  | calling mayFail call raise effect rest =>
    simp only [run, hpoint] at hrun
    exact .inl (some.inj hrun ▸ stages_callStep hpoint)
  | discarding effects outcome =>
    simp only [run, hpoint] at hrun
    cases effects with
    | cons e effects =>
      cases hrun
      exact .inl ⟨rfl,rfl,rfl,rfl,rfl,.discards hpoint⟩
    | nil =>
      cases outcome with
      | failed status error => exact .inr (.inr ⟨status,error,rfl,(some.inj hrun).symm⟩)
      | ok | cancelled =>
        cases hrun
        exact .inl ⟨rfl,rfl,rfl,rfl,rfl,.finishes hpoint nofun⟩
  | committing effects =>
    simp only [run, hpoint] at hrun
    cases effects with
    | cons e effects =>
      cases hrun
      exact .inl ⟨rfl,rfl,rfl,rfl,rfl,.commits hpoint⟩
    | nil =>
      cases hrun
      exact .inl ⟨rfl,rfl,rfl,rfl,rfl,.completes hpoint⟩
  | finished outcome => simp [run, hpoint] at hrun

theorem Steps.stands (h : Steps tr s q effects log) (hs : s.Stands s.point)
    (hexit : tr = .controlledExit → s.exitRequested = true) :
    ({ s with stagedEffects := effects, log := log } : MicrostepState c σ ε).Stands q := by
  have hstart : s.point = .start → ∀ {f : MicrostepEvent ε → Option ε}, f .cancelled = none →
      s.log.filterMap f = [] := by
    intro hpoint f hf
    rw [hpoint] at hs
    refine List.filterMap_eq_nil_iff.2 fun x hx => ?_
    rw [hs x hx, hf]
  have hnew : s.point = .start → ∀ x, x ≠ .cancelled → x ∉ s.log := by
    intro hpoint x hx hmem
    rw [hpoint] at hs
    exact hx (hs x hmem)
  cases h with
  | begins rest hpoint =>
    exact ⟨⟨hnew hpoint _ nofun,hstart hpoint rfl,hstart hpoint rfl,hstart hpoint rfl⟩,
      fun status => hnew hpoint _ nofun⟩
  | abandons htr hpoint hterm =>
    exact ⟨hnew hpoint _ nofun,(hstart hpoint rfl).trans (by simp [hstart hpoint]),
      hstart hpoint rfl,nofun,fun _ => hterm (hexit htr)⟩
  | fails status error hheld =>
    unfold Held at hheld
    split at hheld <;> rename_i hpoint
    · simp [Stands, hheld, hstart hpoint, hnew hpoint]
    · obtain ⟨⟨hu,hj,hc,hd⟩,-⟩ := hpoint ▸ hs
      simp_all [Stands]
    · obtain ⟨⟨hu,hj,hc,hd⟩,-⟩ := hpoint ▸ hs
      simp_all [Stands]
    · exact hheld.elim
  | next hpoint | enters mayFail call hpoint | returns hpoint | calls hpoint hchild =>
    obtain ⟨⟨hu,hj,hc,hd⟩,hr⟩ := hpoint ▸ hs
    exact ⟨⟨hu,hj,hc,hd⟩,by simpa using hr⟩
  | refuses status hpoint hchild hflag =>
    obtain ⟨⟨hu,hj,hc,hd⟩,-⟩ := hpoint ▸ hs
    exact ⟨by constructor <;> simp_all,fun _ _ => hflag⟩
  | stages e hpoint hchild =>
    obtain ⟨⟨hu,hj,hc,hd⟩,hr⟩ := hpoint ▸ hs
    exact ⟨by constructor <;> simp_all,by simpa using hr⟩
  | drops hpoint hterm =>
    obtain ⟨⟨hu,hj,hc,hd⟩,-⟩ := hpoint ▸ hs
    simp_all [Stands]
  | discards hpoint =>
    simp_all [Stands]
  | commits hpoint =>
    obtain ⟨hplog,hst⟩ := hpoint ▸ hs
    exact ⟨hplog.concat rfl nofun,by simp_all⟩
  | finishes hpoint hne =>
    rename_i outcome
    cases outcome <;> simp_all [Stands]
  | completes hpoint =>
    obtain ⟨hplog,hst⟩ := hpoint ▸ hs
    exact ⟨hplog,by simpa using hst⟩

theorem Steps.log_grows (h : Steps tr s q effects log) :
    (.published ∉ log → .published ∉ s.log) ∧ (.cancelled ∈ log → .cancelled ∈ s.log) := by
  cases h <;> simp

theorem Transacts.stages (h : Transacts tr s₀ s) (hst : Stages tr s t) : Transacts tr s₀ t := by
  obtain ⟨hgrows,hcan⟩ := hst.steps.log_grows
  refine ⟨fun hnp => ?_,fun hnp hsome => ?_,fun hnp hc => ?_,fun htr => ?_,?_⟩
  · rw [hst.published, h.untouched (hgrows hnp)]
  · rw [hst.internal, hst.completions]
    exact h.cleared (hgrows hnp) (hst.terminal ▸ hsome)
  · rw [hst.terminal]
    exact h.cancelled (hgrows hnp) (hcan hc)
  · rw [hst.exits]
    exact h.exits htr
  · exact (hst.steps.stands h.stands h.exits).congr rfl rfl fun hs => hst.terminal ▸ hs

theorem Transacts.publish (h : Transacts tr s₀ s) (hpoint : s.point = .tasks [])
    (hmay : s.mayPublish tr = true) : Transacts tr s₀ (s.publish tr) := by
  obtain ⟨ho,hrefused⟩ : s.Stands (.tasks []) := hpoint ▸ h.stands
  -- no cancel has won
  have hcan : .cancelled ∉ s.log := fun hc => by
    cases tr <;> simp [mayPublish, h.cancelled ho.unpublished hc] at hmay
  have hplog : PublishedLog (s.log ++ [.published]) :=
    ⟨by simpa using ho.discarded,fun status => by simpa using hrefused status,s.log,[],rfl,hcan,
      ho.committed⟩
  have hjournal : stagedOf (s.log ++ [.published]) =
      committedOf (s.log ++ [.published]) ++ s.stagedEffects := by
    have := ho.committed
    have := ho.journal
    simp_all
  have hmem : .published ∈ s.log ++ [.published] := by simp
  cases tr with
  | microstep selected event =>
    exact ⟨fun hnp => absurd hmem hnp,fun hnp => absurd hmem hnp,fun hnp => absurd hmem hnp,nofun,
      hplog,hjournal⟩
  | controlledExit =>
    have hnone : s.terminal = none := by simpa [mayPublish] using hmay
    simp only [MicrostepState.publish, winTerminal, hnone]
    exact ⟨fun hnp => absurd hmem hnp,fun hnp => absurd hmem hnp,fun hnp => absurd hmem hnp,
      fun _ => h.exits rfl,hplog,hjournal⟩

theorem Transacts.step (h : Transacts tr s₀ s)
    (hstep : microstepStep env tr s a = some t) : Transacts tr s₀ t := by
  cases a with
  | run ok =>
    rcases run_cases hstep with hst | ⟨hpoint,hmay,rfl⟩ | ⟨status,error,hpoint,rfl⟩
    · exact h.stages hst
    · exact h.publish hpoint hmay
    -- the error is won, unless another outcome was
    have hw := h.beside (beside_winTerminal s .error)
    obtain ⟨hnp,hst,hcm,-⟩ : Stands _ (.discarding [] (.failed status error)) := by
      simpa only [(beside_winTerminal s .error).point, hpoint] using hw.stands
    have hsome : (s.winTerminal .error).terminal.isSome = true := by
      rcases winTerminal_eq s .error with ⟨hsome,hwin⟩ | ⟨-,hwin⟩ <;> rw [hwin]
      · exact hsome
      · rfl
    exact ⟨hw.untouched,hw.cleared,hw.cancelled,hw.exits,hnp,by simpa using hst,hcm,hsome⟩
  | cancel => exact some.inj hstep ▸ h.beside (beside_cancel s)
  | close => exact some.inj hstep ▸ h.beside (beside_close s)
  | requestExit => exact some.inj hstep ▸ h.beside (beside_requestExit s)

end MicrostepState

section Ends

theorem Callback.child_wf : WellFounded (Callback.Child (σ := σ) (ε := ε)) := by
  refine ⟨fun call => ?_⟩
  induction call with
  | ret succeeded out error => exact ⟨_,fun _ h => nomatch h⟩
  | raise event k ih =>
    refine ⟨_,fun call h => ?_⟩
    cases h
    exact ih _
  | stage ticket k ih =>
    refine ⟨_,fun call h => ?_⟩
    cases h
    exact ih _

def MicrostepPoint.call : MicrostepPoint c σ ε → Option (Callback σ ε)
  | .calling _ call _ _ _ => some call
  | _ => none

def MicrostepPoint.left : MicrostepPoint c σ ε → Nat × Nat
  | .start => (3, 0)
  | .tasks rest => (2, 2 * rest.length)
  | .calling _ _ _ _ rest => (2, 2 * rest.length + 1)
  | .discarding effects _ => (1, effects.length)
  | .committing effects => (1, effects.length)
  | .finished _ => (0, 0)

def MicrostepPoint.After (q p : MicrostepPoint c σ ε) : Prop :=
  Prod.Lex (· < ·) (· < ·) q.left p.left ∨
    (q.left = p.left ∧ ∃ x y, q.call = some x ∧ p.call = some y ∧ Callback.Child x y)

theorem MicrostepPoint.After.phase (h : q.left.1 < p.left.1) : q.After p :=
  .inl (Prod.lex_def.2 (.inl h))

theorem MicrostepPoint.After.count (hphase : q.left.1 = p.left.1)
    (h : q.left.2 < p.left.2) : q.After p :=
  .inl (Prod.lex_def.2 (.inr ⟨hphase,h⟩))

theorem MicrostepPoint.after_wf : WellFounded (MicrostepPoint.After (c := c) (σ := σ) (ε := ε)) := by
  have hleft : WellFounded (Prod.Lex (· < ·) (· < ·)) :=
    WellFounded.prod_lex Nat.lt_wfRel.wf Nat.lt_wfRel.wf
  have hcall : WellFounded fun x y : Option (Callback σ ε) =>
      ∃ a b, x = some a ∧ y = some b ∧ Callback.Child a b := by
    refine ⟨fun x => ?_⟩
    cases x with
    | none => exact ⟨_,fun y ⟨a,b,_,hb,_⟩ => nomatch hb⟩
    | some call =>
      induction call using Callback.child_wf.induction with
      | _ call ih =>
        refine ⟨_,?_⟩
        rintro y ⟨a,b,rfl,hb,hchild⟩
        cases hb
        exact ih a hchild
  refine Subrelation.wf ?_ (InvImage.wf (fun p => (p.left,p.call))
    (WellFounded.prod_lex hleft hcall))
  rintro q p (h | ⟨heq,h⟩)
  · exact Prod.Lex.left _ _ h
  · show Prod.Lex _ _ (q.left,q.call) (p.left,p.call)
    rw [heq]
    exact Prod.Lex.right _ h

namespace MicrostepState

variable {env : InstanceConfig σ ε} {tr : Transaction c} {s s₀ t : MicrostepState c σ ε}

theorem Steps.after (h : Steps tr s q effects log) : q.After s.point := by
  cases h with
  | begins rest hpoint | abandons htr hpoint hterm | drops hpoint hterm
  | finishes hpoint hne | completes hpoint =>
    rw [hpoint]
    exact .phase (by simp [left])
  | fails status error hheld =>
    unfold Held at hheld
    split at hheld <;> rename_i hpoint
    · rw [hpoint]
      exact .phase (by simp [left])
    · rw [hpoint]
      exact .phase (by simp [left])
    · rw [hpoint]
      exact .phase (by simp [left])
    · exact hheld.elim
  | next hpoint | enters mayFail call hpoint | returns hpoint | discards hpoint | commits hpoint =>
    rw [hpoint]
    exact .count rfl (by simp [left]; try omega)
  | calls hpoint hchild | refuses status hpoint hchild hflag | stages e hpoint hchild =>
    rw [hpoint]
    exact .inr ⟨rfl,_,_,rfl,rfl,hchild⟩

theorem run_after (hrun : s.run env tr ok = some t) : t.point.After s.point := by
  rcases run_cases hrun with hst | ⟨hpoint,-,rfl⟩ | ⟨status,error,hpoint,rfl⟩
  · exact hst.steps.after
  · have : (s.publish tr).point = .committing s.stagedEffects := by
      cases tr with
      | microstep selected event => rfl
      | controlledExit => exact (beside_winTerminal _ .cancel).point
    rw [hpoint, this]
    exact .phase (by simp [left])
  · rw [hpoint]
    exact .phase (by simp [left])

theorem finished_of_run (hrun : s.run env tr ok = none) :
    ∃ outcome, s.point = .finished outcome := by
  unfold run at hrun
  split at hrun <;> try cases hrun
  · split at hrun
    · split at hrun <;> cases hrun
    · cases hrun
  · exact ⟨_,‹_›⟩

theorem step_point (hstep : microstepStep env tr s a = some t) :
    t.point = s.point ∨ t.point.After s.point := by
  cases a with
  | run ok => exact Or.inr (run_after hstep)
  | cancel => exact Or.inl (some.inj hstep ▸ (beside_cancel s).point)
  | close => exact Or.inl (some.inj hstep ▸ (beside_close s).point)
  | requestExit => exact Or.inl (some.inj hstep ▸ (beside_requestExit s).point)

theorem run_settles {ρ : Nat → MicrostepState c σ ε}
    (hρ : ∀ n, ∃ a, microstepStep env tr (ρ n) a = some (ρ (n + 1))) :
    ∃ n, ∀ m, n ≤ m → (ρ m).point = (ρ n).point := by
  obtain ⟨p,⟨n,rfl⟩,hmin⟩ := after_wf.has_min
    (Set.range fun n => (ρ n).point) ⟨_,0,rfl⟩
  refine ⟨n,fun m hm => ?_⟩
  induction m, hm using Nat.le_induction with
  | base => rfl
  | succ m _ ih =>
    obtain ⟨a,ha⟩ := hρ m
    rcases step_point ha with heq | hafter
    · exact heq.trans ih
    · rw [ih] at hafter
      exact absurd hafter (hmin _ ⟨m+1,rfl⟩)

structure Fresh (tr : Transaction c) (s : MicrostepState c σ ε) : Prop where
  point : s.point = .start
  log : s.log = []
  terminal : s.terminal = none
  exits : tr = .controlledExit → s.exitRequested = true

theorem Fresh.transacts (h : s₀.Fresh tr) : Transacts tr s₀ s₀ := by
  refine ⟨fun _ => rfl,fun _ hsome => ?_,fun _ hc => ?_,h.exits,?_⟩
  · rw [h.terminal] at hsome
    cases hsome
  · rw [h.log] at hc
    cases hc
  · rw [h.point]
    intro x hx
    rw [h.log] at hx
    cases hx

/-- Nothing of the microstep is left: what was published stays, the queues are empty, and every
staged effect was discarded, once and in order. -/
structure RolledBack (s₀ s : MicrostepState c σ ε) : Prop where
  published : s.published = s₀.published
  internal : s.internal = []
  completions : s.completions = []
  discarded : discardedOf s.log = stagedOf s.log
  committed : committedOf s.log = []

/-- Every staged effect was committed, once and in order, behind a publication before which no step
was refused and no cancel won. -/
structure Committed (s : MicrostepState c σ ε) : Prop where
  committed : committedOf s.log = stagedOf s.log
  log : PublishedLog s.log

end MicrostepState

open MicrostepState

/-- A microstep and the controlled exit are all or nothing, wherever a step is refused and whatever
other threads call: until the task publishes nothing published changes; when it finishes, it has
published and committed its effects, or it has rolled back, and in any interleaving it makes only
finitely many steps until then. -/
theorem microstep_all_or_nothing (env : InstanceConfig σ ε) (tr : Transaction c)
    (s₀ : MicrostepState c σ ε) (h₀ : s₀.Fresh tr) :
    (∀ s, Transition.Reach (microstepStep env tr) (· = s₀) Transition.anyAction s →
      (.published ∉ s.log → s.published = s₀.published) ∧
      (s.point = .finished .ok → s.Committed) ∧
      (∀ outcome, s.point = .finished outcome → outcome ≠ .ok → RolledBack s₀ s) ∧
      ((∃ outcome, s.point = .finished outcome) ∨ ∀ ok, ∃ t, s.run env tr ok = some t)) ∧
    ∀ ρ : Nat → MicrostepState c σ ε,
      (∀ n, ∃ a, microstepStep env tr (ρ n) a = some (ρ (n + 1))) →
        ∃ n, ∀ m, n ≤ m → (ρ m).point = (ρ n).point := by
  refine ⟨fun s hs => ?_,fun ρ hρ => run_settles hρ⟩
  have hinv : Transacts tr s₀ s := by
    refine hs.invariant ?_ fun s a t h _ hstep => h.step hstep
    rintro s rfl
    exact h₀.transacts
  have hstands := hinv.stands
  refine ⟨hinv.untouched,fun hpoint => ?_,fun outcome hpoint hne => ?_,?_⟩
  · rw [hpoint] at hstands
    exact ⟨hstands.2.symm,hstands.1⟩
  · rw [hpoint] at hstands
    have hback : .published ∉ s.log ∧ stagedOf s.log = discardedOf s.log ∧
        committedOf s.log = [] ∧ s.terminal.isSome = true := by
      cases outcome with
      | ok => exact absurd rfl hne
      | failed status error => exact hstands
      | cancelled => exact hstands
    obtain ⟨hnp,hst,hcm,hsome⟩ := hback
    obtain ⟨hinternal,hcompletions⟩ := hinv.cleared hnp hsome
    exact ⟨hinv.untouched hnp,hinternal,hcompletions,hst.symm,hcm⟩
  · by_cases hfinished : ∃ outcome, s.point = .finished outcome
    · exact Or.inl hfinished
    · refine Or.inr fun ok => Option.ne_none_iff_exists'.1 fun hrun => ?_
      exact hfinished (finished_of_run hrun)

end Ends

section Toggle

open MicrostepState

def toggle : ChartDefinition where
  states := [⟨1, 0, .compound, 1⟩, ⟨2, 1, .initial, 2⟩, ⟨3, 1, .atomic, 3⟩, ⟨4, 1, .atomic, 4⟩]
  events := [1]
  executables := [1]
  transitions := [⟨1, 2, .eventless, 0, 0, 0, 3, .external, 1, 1⟩,
    ⟨2, 3, .event, 1, 0, 0, 4, .external, 1, 2⟩]
  transitionActions := [⟨2, 1, 1⟩]

def stageThenFail : InstanceConfig Nat Nat where
  executables := fun _ => some ⟨true, fun _ _ v _ _ => .stage (some 7) fun _ => .ret false v none⟩
  eventType := fun _ => some 1
  internalEventCapacity := 4
  completionCapacity := 4
  effectCapacity := 4

def toggleStart (c : ChartImpl) : MicrostepState c Nat Nat :=
  let b : Buffers c Nat :=
    ⟨(buildInitialConfiguration c).elim (fun _ => false) (·.bits), {}, fun _ => false, 0⟩
  { published := b, staged := b, internal := [⟨1, 1, [], 0⟩] }

def toggleStep (c : ChartImpl) : Transaction c :=
  .microstep (selectTransitions (toggleStart c).published.bits (fun _ _ => true) (.event 1)) none

theorem toggleStart_fresh (c : ChartImpl) : (toggleStart c).Fresh (toggleStep c) :=
  ⟨rfl,rfl,rfl,nofun⟩

def MicrostepPoint.failed : MicrostepPoint c σ ε → Bool
  | .finished (.failed _ _) => true
  | _ => false

theorem toggle_all_or_nothing :
    ∃ c, buildStatechart toggle = .ok c ∧ (toggleStart c).Fresh (toggleStep c) ∧
      ∀ s, Transition.Reach (microstepStep stageThenFail (toggleStep c)) (· = toggleStart c)
          Transition.anyAction s →
        ∀ outcome, s.point = .finished outcome → outcome ≠ .ok → RolledBack (toggleStart c) s := by
  have hok : (buildStatechart toggle).toOption.isSome = true := by decide +kernel
  cases hb : buildStatechart toggle with
  | error e => simp [hb, Except.toOption] at hok
  | ok c =>
    have hfresh := toggleStart_fresh c
    exact ⟨c,rfl,hfresh,fun s hs =>
      ((microstep_all_or_nothing stageThenFail (toggleStep c) (toggleStart c) hfresh).1 s hs).2.2.1⟩

/-- A failed microstep does not leave the internal queue as it was. -/
theorem failed_microstep_empties_queue :
    ∃ c, buildStatechart toggle = .ok c ∧ ∃ s,
      Transition.Reach (microstepStep stageThenFail (toggleStep c)) (· = toggleStart c)
        Transition.anyAction s ∧
      s.point.failed = true ∧ s.internal ≠ (toggleStart c).internal := by
  have hrun : (match buildStatechart toggle with
      | .ok c =>
        (Transition.exec (microstepStep stageThenFail (toggleStep c)) (toggleStart c)
          (List.replicate 6 (.run true))).any fun s =>
            s.point.failed && decide (s.internal ≠ (toggleStart c).internal)
      | .error _ => false) = true := by decide +kernel
  cases hb : buildStatechart toggle with
  | error e =>
    rw [hb] at hrun
    cases hrun
  | ok c =>
    rw [hb] at hrun
    obtain ⟨s,hs,hfailed⟩ := (Option.any_eq_true _ _).1 hrun
    rw [Bool.and_eq_true, decide_eq_true_eq] at hfailed
    have hstart : Transition.Reach (microstepStep stageThenFail (toggleStep c))
        (· = toggleStart c) Transition.anyAction (toggleStart c) := .start rfl
    exact ⟨c,rfl,s,hstart.exec (fun _ _ _ => trivial) hs,hfailed⟩

end Toggle

end Salts.CFlow.ChartImpl
