import Mathlib.Logic.Function.Basic
import Ubgp.Config
import Ubgp.Lib.Trace

/-! The supervisor of the workers (`run` in `main.rs`): signals, reloads and fatal exits.

Each await is a step of its own; the workers end when they like. -/
namespace Ubgp
namespace Supervisor

inductive Role
  | kernel
  | bgp
  | console
deriving DecidableEq

/-- How a task ended: with a result of its own, by a panic or cancelled by `abort`. -/
inductive Exit
  | ok
  | failed (e : String)
  | panicked
  | cancelled

structure Task where
  aborted : Bool
  exit : Option Exit

inductive Signal
  | hangup
  | terminate
  | interrupt
deriving DecidableEq

/-- `halt` stores the stop flag. -/
inductive Action
  | halt
  | abort (r : Role)
  | join (r : Role)
deriving DecidableEq

/-- What follows once the workers are wound down. -/
inductive Next
  | fail (r : Role)
  | replace (config : Option Config)

inductive Pc
  | bind
  | watch
  | wind (todo : List Action) (next : Next)
  | returned (result : Except String Unit)

/-- `tasks` are those of every generation; `halted` is the stop flag of the current one and
`pending` the signals that were not received yet. -/
structure State where
  pc : Pc
  config : Config
  generation : ℕ
  tasks : ℕ → Role → Option Task
  halted : Bool
  pending : Signal → Bool

def init (config : Config) : State where
  pc := .bind
  config := config
  generation := 0
  tasks := fun _ _ => none
  halted := false
  pending := fun _ => false

inductive Label
  | raised (sig : Signal)
  | exited (g : ℕ) (r : Role)
  | spawned (config : Config)
  | lost (r : Role)
  | reloaded (config : Config)
  | rejected
  | stopping
  | returned (result : Except String Unit)
  | tau

/-- `file` is what reading and parsing the configuration file gives. -/
inductive Move
  | raise (sig : Signal)
  | exit (g : ℕ) (r : Role) (exit : Exit)
  | bind (result : Except String Unit)
  | joined (r : Role)
  | hangup (file : Except Message Config)
  | stop (sig : Signal)
  | act
  | settle

/-- `Config::load`. -/
def load (file : Except Message Config) : Except Message Config := do
  let cfg ← file
  cfg.validate
  return cfg

/-- `management::bind`: whether there is a listener; `result` is what binding its address gives. -/
def bind (cfg : Config) (result : Except String Unit) : Except String Bool :=
  if cfg.management.enabled then
    match result with
    | .ok () => .ok true
    | .error e => .error ("binding management CLI: " ++ e)
  else .ok false

/-- The branches of the `select!` for a worker that has ended. -/
def windDown : Role → List Action
  | .kernel => [.abort .console, .join .console, .halt, .abort .bgp, .join .bgp]
  | .bgp => [.abort .console, .join .console, .halt, .join .kernel]
  | .console => [.halt, .abort .bgp, .join .bgp, .join .kernel]

/-- After the loop. -/
def shutDown : List Action :=
  [.halt, .abort .console, .join .console, .abort .bgp, .join .bgp, .join .kernel]

def Role.task : Role → String
  | .kernel => "netlink worker"
  | .bgp => "BGP task"
  | .console => "management task"

/-- `result.context(..)??` and the `bail!` after it. -/
def fatal (r : Role) : Exit → String
  | .ok => r.task ++ " stopped unexpectedly"
  | .failed e => e
  | .panicked | .cancelled => r.task ++ " panicked"

namespace State
variable (s : State)

def setTask (g : ℕ) (r : Role) (t : Task) : State :=
  { s with tasks := Function.update s.tasks g (Function.update (s.tasks g) r (some t)) }

/-- How the task of the current generation ended. -/
def exitOf (r : Role) : Option Exit := (s.tasks s.generation r).bind Task.exit

def spawn : State :=
  { s with
    pc := .watch
    halted := false
    tasks := Function.update s.tasks s.generation (fun _ => some ⟨false, none⟩) }

def act (a : Action) (todo : List Action) (next : Next) : Option State :=
  match a with
  | .halt => some { s with halted := true, pc := .wind todo next }
  | .abort r =>
    match s.tasks s.generation r with
    | some t => some { s.setTask s.generation r { t with aborted := true } with
        pc := .wind todo next }
    | none => none
  | .join r => if (s.exitOf r).isSome then some { s with pc := .wind todo next } else none

/-- The workers are wound down: report the failure, or `kernel.await` and go on. -/
def settle : Next → Option (Label × State)
  | .fail r => do
    let exit ← s.exitOf r
    let result := .error (fatal r exit)
    return (.returned result, { s with pc := .returned result })
  | .replace next => do
    match ← s.exitOf .kernel, next with
    | .ok, some config =>
      return (.tau, { s with pc := .bind, config, generation := s.generation + 1 })
    | .ok, none => return (.returned (.ok ()), { s with pc := .returned (.ok ()) })
    | .failed e, _ => return (.returned (.error e), { s with pc := .returned (.error e) })
    | _, _ =>
      let result := .error "joining netlink worker"
      return (.returned result, { s with pc := .returned result })

end State

def step (s : State) : Move → Option (Label × State)
  | .raise sig => some (.raised sig, { s with pending := Function.update s.pending sig true })
  | .exit g r exit =>
    match s.tasks g r, exit with
    | some ⟨false, none⟩, .cancelled => none
    | some ⟨aborted, none⟩, exit => some (.exited g r, s.setTask g r ⟨aborted, some exit⟩)
    | _, _ => none
  | .bind result =>
    match s.pc, Supervisor.bind s.config result with
    | .bind, .ok _ => some (.spawned s.config, s.spawn)
    | .bind, .error e => some (.returned (.error e), { s with pc := .returned (.error e) })
    | _, _ => none
  | .joined r =>
    match s.pc, s.exitOf r with
    | .watch, some _ => some (.lost r, { s with pc := .wind (windDown r) (.fail r) })
    | _, _ => none
  | .hangup file =>
    match s.pc, s.pending .hangup with
    | .watch, true =>
      let s := { s with pending := Function.update s.pending .hangup false }
      match load file with
      | .ok config =>
        some (.reloaded config, { s with pc := .wind shutDown (.replace (some config)) })
      | .error _ => some (.rejected, s)
    | _, _ => none
  | .stop sig =>
    match s.pc, s.pending sig with
    | .watch, true =>
      if sig = .hangup then none
      else some (.stopping, { s with
        pc := .wind shutDown (.replace none)
        pending := Function.update s.pending sig false })
    | _, _ => none
  | .act =>
    match s.pc with
    | .wind (a :: todo) next => (s.act a todo next).map (fun t => (.tau, t))
    | _ => none
  | .settle =>
    match s.pc with
    | .wind [] next => s.settle next
    | _ => none

def Step (s : State) (a : Label) (t : State) : Prop := ∃ m, step s m = some (a, t)

/-! What one step can do. -/

inductive Effect (s : State) : Label → State → Prop
  | raised {sig : Signal} {pending : Signal → Bool} : Effect s (.raised sig) { s with pending }
  | exited {g : ℕ} {r : Role} {aborted : Bool} {exit : Exit}
      (ht : s.tasks g r = some ⟨aborted, none⟩) :
      Effect s (.exited g r) (s.setTask g r ⟨aborted, some exit⟩)
  | spawned (hpc : s.pc = .bind) : Effect s (.spawned s.config) s.spawn
  | unbound {e : String} (hpc : s.pc = .bind) :
      Effect s (.returned (.error e)) { s with pc := .returned (.error e) }
  | lost {r : Role} {exit : Exit} (hpc : s.pc = .watch) (he : s.exitOf r = some exit) :
      Effect s (.lost r) { s with pc := .wind (windDown r) (.fail r) }
  | reloaded {config : Config} {pending : Signal → Bool} (hpc : s.pc = .watch)
      (hv : config.validate = .ok ()) :
      Effect s (.reloaded config) { s with pc := .wind shutDown (.replace (some config)), pending }
  | rejected {pending : Signal → Bool} (hpc : s.pc = .watch) :
      Effect s .rejected { s with pending }
  | stopping {pending : Signal → Bool} (hpc : s.pc = .watch) :
      Effect s .stopping { s with pc := .wind shutDown (.replace none), pending }
  | halted {todo : List Action} {next : Next} (hpc : s.pc = .wind (.halt :: todo) next) :
      Effect s .tau { s with halted := true, pc := .wind todo next }
  | aborted {r : Role} {todo : List Action} {next : Next} {t : Task}
      (hpc : s.pc = .wind (.abort r :: todo) next) (ht : s.tasks s.generation r = some t) :
      Effect s .tau { s.setTask s.generation r { t with aborted := true } with
        pc := .wind todo next }
  | joined {r : Role} {todo : List Action} {next : Next} {exit : Exit}
      (hpc : s.pc = .wind (.join r :: todo) next) (he : s.exitOf r = some exit) :
      Effect s .tau { s with pc := .wind todo next }
  | failed {next : Next} {e : String} (hpc : s.pc = .wind [] next) :
      Effect s (.returned (.error e)) { s with pc := .returned (.error e) }
  | replaced {config : Config} (hpc : s.pc = .wind [] (.replace (some config))) :
      Effect s .tau { s with pc := .bind, config, generation := s.generation + 1 }
  | finished (hpc : s.pc = .wind [] (.replace none)) :
      Effect s (.returned (.ok ())) { s with pc := .returned (.ok ()) }

variable {s t : State} {a : Label} {xs : List Label} {config : Config}

theorem load_eq_ok {file : Except Message Config} (h : load file = .ok config) :
    config.validate = .ok () := by
  cases file with
  | error e => cases h
  | ok c =>
    obtain ⟨hv, hc⟩ := bind_unit_eq_ok.mp h
    cases hc
    exact hv

theorem settle_effect {next : Next} (hpc : s.pc = .wind [] next)
    (h : s.settle next = some (a, t)) : Effect s a t := by
  cases next with
  | fail r =>
    simp only [State.settle, Option.bind_eq_bind, Option.bind_eq_some_iff, Option.pure_def,
      Option.some.injEq, Prod.mk.injEq] at h
    obtain ⟨exit, -, rfl, rfl⟩ := h
    exact .failed hpc
  | replace config =>
    simp only [State.settle, Option.bind_eq_bind, Option.bind_eq_some_iff, Option.pure_def] at h
    obtain ⟨exit, -, h⟩ := h
    split at h
    · cases h
      exact .replaced hpc
    · cases h
      exact .finished hpc
    · cases h
      exact .failed hpc
    · cases h
      exact .failed hpc

theorem act_effect {b : Action} {todo : List Action} {next : Next}
    (hpc : s.pc = .wind (b :: todo) next) (h : s.act b todo next = some t) : Effect s .tau t := by
  cases b with
  | halt =>
    cases h
    exact .halted hpc
  | abort r =>
    simp only [State.act] at h
    split at h
    · rename_i ht
      cases h
      exact .aborted hpc ht
    · cases h
  | join r =>
    simp only [State.act, Option.ite_none_right_eq_some, Option.some.injEq] at h
    obtain ⟨he, rfl⟩ := h
    obtain ⟨exit, he⟩ := Option.isSome_iff_exists.mp he
    exact .joined hpc he

/-- Every step is one of the listed effects. -/
theorem Step.effect (h : Step s a t) : Effect s a t := by
  obtain ⟨m, h⟩ := h
  cases m with
  | raise sig =>
    cases h
    exact .raised
  | exit g r exit =>
    simp only [step] at h
    split at h
    · cases h
    · rename_i ht _
      cases h
      exact .exited ht
    · cases h
  | bind result =>
    simp only [step] at h
    split at h
    · rename_i hpc _
      cases h
      exact .spawned hpc
    · rename_i hpc _
      cases h
      exact .unbound hpc
    · cases h
  | joined r =>
    simp only [step] at h
    split at h
    · rename_i hpc he
      cases h
      exact .lost hpc he
    · cases h
  | hangup file =>
    simp only [step] at h
    split at h
    · rename_i hpc _
      split at h
      · rename_i hload
        cases h
        exact .reloaded hpc (load_eq_ok hload)
      · cases h
        exact .rejected hpc
    · cases h
  | stop sig =>
    simp only [step] at h
    split at h
    · rename_i hpc _
      simp only [Option.ite_none_left_eq_some] at h
      obtain ⟨-, h⟩ := h
      cases h
      exact .stopping hpc
    · cases h
  | act =>
    simp only [step] at h
    split at h
    · rename_i hpc
      obtain ⟨u, hu, he⟩ := Option.map_eq_some_iff.mp h
      cases he
      exact act_effect hpc hu
    · cases h
  | settle =>
    simp only [step] at h
    split at h
    · rename_i hpc
      exact settle_effect hpc h
    · cases h

/-! Generations. -/

/-- The task runs. -/
def State.Alive (s : State) (g : ℕ) (r : Role) : Prop := ∃ t, s.tasks g r = some t ∧ t.exit = none

/-- The action that asks a worker to end. -/
def Role.request : Role → Action
  | .kernel => .halt
  | .bgp => .abort .bgp
  | .console => .abort .console

/-- What an action leaves behind. -/
def State.Done (s : State) : Action → Prop
  | .halt => s.halted = true
  | .abort r => ∃ t, s.tasks s.generation r = some t ∧ t.aborted = true
  | .join r => ¬ s.Alive s.generation r

/-- Every worker is asked to end before it is waited for. -/
def ordered (done : List Action) : List Action → Bool
  | [] => true
  | .join r :: todo => done.contains r.request && ordered (.join r :: done) todo
  | a :: todo => ordered (a :: done) todo

theorem windDown_ordered (r : Role) : ordered [] (windDown r) = true := by
  cases r <;> decide

theorem shutDown_ordered : ordered [] shutDown = true := by decide

/-- How far the supervisor has come with the workers of the current generation. -/
def Stage (s : State) : Prop :=
  match s.pc with
  | .bind => ∀ r, s.tasks s.generation r = none
  | .watch => True
  | .wind todo next => (∃ done, (∀ a ∈ done, s.Done a) ∧ ordered done todo = true) ∧
      (∀ r, s.Alive s.generation r → .join r ∈ todo) ∧
      ∀ config, next = .replace (some config) → config.validate = .ok ()
  | .returned _ => ∀ r, ¬ s.Alive s.generation r

structure Orderly (s : State) : Prop where
  valid : s.config.validate = .ok ()
  past : ∀ g r, s.Alive g r → g = s.generation
  future : ∀ g r, s.generation < g → s.tasks g r = none
  stage : Stage s

theorem init_orderly (h : config.validate = .ok ()) : Orderly (init config) where
  valid := h
  past := by
    rintro g r ⟨t, ht, -⟩
    cases ht
  future := fun _ _ _ => rfl
  stage := fun _ => rfl

theorem setTask_of_ne {g g' : ℕ} {r r' : Role} {u : Task} (h : ¬ (g' = g ∧ r' = r)) :
    (s.setTask g r u).tasks g' r' = s.tasks g' r' := by
  simp only [State.setTask]
  by_cases hg : g' = g
  · subst hg
    rw [Function.update_self, Function.update_of_ne (fun hr => h ⟨rfl, hr⟩)]
  · rw [Function.update_of_ne hg]

@[simp] theorem setTask_self (g : ℕ) (r : Role) (u : Task) :
    (s.setTask g r u).tasks g r = some u := by
  simp [State.setTask]

/-- A task that keeps running ran before. -/
theorem alive_setTask {g g' : ℕ} {r r' : Role} {u : Task} (hu : u.exit = none → s.Alive g r)
    (h : (s.setTask g r u).Alive g' r') : s.Alive g' r' := by
  obtain ⟨v, hv, hexit⟩ := h
  by_cases he : g' = g ∧ r' = r
  · obtain ⟨rfl, rfl⟩ := he
    rw [setTask_self] at hv
    cases hv
    exact hu hexit
  · rw [setTask_of_ne he] at hv
    exact ⟨v, hv, hexit⟩

theorem not_alive_of_exitOf {r : Role} {exit : Exit} (h : s.exitOf r = some exit) :
    ¬ s.Alive s.generation r := by
  rintro ⟨t, ht, hnone⟩
  rw [State.exitOf, ht, Option.bind_some, hnone] at h
  cases h

/-- A task whose abort flag stays leaves behind what it left. -/
theorem done_setTask {g : ℕ} {r : Role} {u v : Task} {b : Action} (hv : s.tasks g r = some v)
    (ha : v.aborted = true → u.aborted = true) (hu : u.exit = none → s.Alive g r)
    (h : s.Done b) : (s.setTask g r u).Done b := by
  cases b with
  | halt => exact h
  | abort r' =>
    obtain ⟨w, hw, hab⟩ := h
    by_cases he : s.generation = g ∧ r' = r
    · obtain ⟨rfl, rfl⟩ := he
      rw [hw] at hv
      cases hv
      exact ⟨u, setTask_self _ _ _, ha hab⟩
    · exact ⟨w, (setTask_of_ne he).trans hw, hab⟩
  | join r' => exact fun halive => h (alive_setTask hu halive)

/-- A step that changes nothing of the current generation but what its tasks have come to. -/
theorem Stage.mono (h : Stage s) (hpc : t.pc = s.pc) (hg : t.generation = s.generation)
    (hnone : ∀ g r, s.tasks g r = none → t.tasks g r = none)
    (halive : ∀ g r, t.Alive g r → s.Alive g r) (hdone : ∀ b, s.Done b → t.Done b) : Stage t := by
  unfold Stage at h ⊢
  rw [hpc, hg]
  split
  · rename_i hp
    rw [hp] at h
    exact fun r => hnone _ r (h r)
  · trivial
  · rename_i todo next hp
    rw [hp] at h
    obtain ⟨⟨done, hdo, hord⟩, hjoin, hnext⟩ := h
    exact ⟨⟨done, fun b hb => hdone b (hdo b hb), hord⟩, fun r hr => hjoin r (halive _ r hr), hnext⟩
  · rename_i hp
    rw [hp] at h
    exact fun r hr => h r (halive _ r hr)

theorem orderly_step (h : Orderly s) (hstep : Step s a t) : Orderly t := by
  have hstage := h.stage
  unfold Stage at hstage
  cases hstep.effect with
  | raised => exact ⟨h.valid, h.past, h.future, h.stage⟩
  | rejected => exact ⟨h.valid, h.past, h.future, h.stage⟩
  | @exited g r aborted exit ht =>
    have halive : ∀ g' r', (s.setTask g r ⟨aborted, some exit⟩).Alive g' r' → s.Alive g' r' :=
      fun _ _ ha => alive_setTask (fun hn => by cases hn) ha
    have hnone : ∀ g' r', s.tasks g' r' = none →
        (s.setTask g r ⟨aborted, some exit⟩).tasks g' r' = none := by
      intro g' r' hn
      rw [setTask_of_ne ?_, hn]
      rintro ⟨rfl, rfl⟩
      rw [ht] at hn
      cases hn
    refine ⟨h.valid, fun g' r' ha => h.past g' r' (halive g' r' ha),
      fun g' r' hg => hnone g' r' (h.future g' r' hg), ?_⟩
    refine h.stage.mono rfl rfl hnone halive ?_
    exact fun b hb => done_setTask ht (fun ha => ha) (fun hn => by cases hn) hb
  | spawned hpc =>
    refine ⟨h.valid, ?_, ?_, trivial⟩
    · rintro g r ⟨u, hu, hn⟩
      by_cases hg : g = s.generation
      · exact hg
      · refine h.past g r ⟨u, ?_, hn⟩
        simpa [State.spawn, hg] using hu
    · intro g r hg
      have hg' : s.generation < g := hg
      simp [State.spawn, Nat.ne_of_gt hg', h.future g r hg']
  | unbound hpc =>
    rw [hpc] at hstage
    refine ⟨h.valid, h.past, h.future, ?_⟩
    rintro r ⟨u, hu, -⟩
    rw [hstage r] at hu
    cases hu
  | @lost r exit hpc he =>
    refine ⟨h.valid, h.past, h.future, ⟨[], by simp, windDown_ordered r⟩, ?_, by simp⟩
    intro r' ha
    have hne : r' ≠ r := by
      rintro rfl
      exact not_alive_of_exitOf he ha
    cases r <;> cases r' <;> first | exact absurd rfl hne | simp [windDown]
  | reloaded hpc hv =>
    refine ⟨h.valid, h.past, h.future, ⟨[], by simp, shutDown_ordered⟩, ?_, ?_⟩
    · intro r _
      cases r <;> simp [shutDown]
    · intro config hc
      cases hc
      exact hv
  | stopping hpc =>
    refine ⟨h.valid, h.past, h.future, ⟨[], by simp, shutDown_ordered⟩, ?_, by simp⟩
    intro r _
    cases r <;> simp [shutDown]
  | @halted todo next hpc =>
    rw [hpc] at hstage
    obtain ⟨⟨done, hdone, hord⟩, hjoin, hnext⟩ := hstage
    refine ⟨h.valid, h.past, h.future, ⟨.halt :: done, ?_, hord⟩, ?_, hnext⟩
    · refine List.forall_mem_cons.mpr ⟨rfl, fun b hb => ?_⟩
      have := hdone b hb
      cases b with
      | halt => rfl
      | abort | join => exact this
    · intro r ha
      simpa using hjoin r ha
  | @aborted r todo next u hpc hu =>
    rw [hpc] at hstage
    obtain ⟨⟨done, hdone, hord⟩, hjoin, hnext⟩ := hstage
    have hlive : u.exit = none → s.Alive s.generation r := fun hn => ⟨u, hu, hn⟩
    have halive : ∀ g' r', (s.setTask s.generation r { u with aborted := true }).Alive g' r' →
        s.Alive g' r' :=
      fun _ _ ha => alive_setTask (u := { u with aborted := true }) hlive ha
    refine ⟨h.valid, fun g' r' ha => h.past g' r' (halive g' r' ha), ?_,
      ⟨.abort r :: done, ?_, hord⟩, ?_, hnext⟩
    · intro g' r' hg
      have hg' : s.generation < g' := hg
      exact (setTask_of_ne (fun he => Nat.ne_of_gt hg' he.1)).trans (h.future g' r' hg')
    · refine List.forall_mem_cons.mpr ⟨⟨_, setTask_self _ _ _, rfl⟩, fun b hb => ?_⟩
      have hset := done_setTask (u := { u with aborted := true }) hu (fun _ => rfl) hlive
        (hdone b hb)
      cases b <;> exact hset
    · intro r' ha
      simpa using hjoin r' (halive _ r' ha)
  | @joined r todo next exit hpc he =>
    rw [hpc] at hstage
    obtain ⟨⟨done, hdone, hord⟩, hjoin, hnext⟩ := hstage
    have hdead := not_alive_of_exitOf he
    simp only [ordered, Bool.and_eq_true] at hord
    refine ⟨h.valid, h.past, h.future, ⟨.join r :: done, ?_, hord.2⟩, ?_, hnext⟩
    · refine List.forall_mem_cons.mpr ⟨hdead, fun b hb => ?_⟩
      have := hdone b hb
      cases b <;> exact this
    · intro r' ha
      rcases List.mem_cons.mp (hjoin r' ha) with hr | hr
      · cases hr
        exact absurd ha hdead
      · exact hr
  | failed hpc | finished hpc =>
    rw [hpc] at hstage
    refine ⟨h.valid, h.past, h.future, ?_⟩
    intro r ha
    cases hstage.2.1 r ha
  | @replaced config hpc =>
    rw [hpc] at hstage
    have hdead : ∀ g r, ¬ s.Alive g r := by
      intro g r ha
      obtain rfl := h.past g r ha
      cases hstage.2.1 r ha
    refine ⟨hstage.2.2 config rfl, fun g r ha => absurd ha (hdead g r), ?_, ?_⟩
    · intro g r hg
      exact h.future g r (Nat.lt_of_succ_lt hg)
    · intro r
      exact h.future _ r (Nat.lt_succ_self _)

theorem orderly_of_trace (hv : config.validate = .ok ())
    (h : Lts.Trace Step (init config) xs s) : Orderly s :=
  h.invariant (init_orderly hv) (fun _ _ _ hs ha => orderly_step hs ha)

/-- In every run a worker that is alive belongs to the current generation; none is when the next
generation is about to start or the daemon has returned, and the supervisor waits only for workers
that it has asked to end. -/
theorem generations_disjoint (hv : config.validate = .ok ())
    (h : Lts.Trace Step (init config) xs s) :
    (∀ g r, s.Alive g r → g = s.generation) ∧
      (s.pc = .bind ∨ (∃ result, s.pc = .returned result) → ∀ g r, ¬ s.Alive g r) ∧
      ∀ r todo next, s.pc = .wind (.join r :: todo) next →
        match r with
        | .kernel => s.halted = true
        | r => ∃ t, s.tasks s.generation r = some t ∧ t.aborted = true := by
  have horderly := orderly_of_trace hv h
  have hstage := horderly.stage
  unfold Stage at hstage
  refine ⟨horderly.past, ?_, ?_⟩
  · rintro hpc g r ha
    obtain rfl := horderly.past g r ha
    rcases hpc with hpc | ⟨result, hpc⟩
    · rw [hpc] at hstage
      obtain ⟨u, hu, -⟩ := ha
      rw [hstage r] at hu
      cases hu
    · rw [hpc] at hstage
      exact hstage r ha
  · intro r todo next hpc
    rw [hpc] at hstage
    obtain ⟨⟨done, hdone, hord⟩, -⟩ := hstage
    simp only [ordered, Bool.and_eq_true, List.contains_iff_mem] at hord
    have hasked := hdone _ hord.1
    cases r <;> exact hasked

/-- The first generation is replaced on a hangup with a valid file; the second one is stopped. -/
def reloadMoves : List Move :=
  [.bind (.ok ()), .raise .hangup, .hangup (.ok exampleConfig), .act, .act,
    .exit 0 .console .cancelled, .act, .act, .exit 0 .bgp .cancelled, .act, .exit 0 .kernel .ok,
    .act, .settle, .bind (.ok ()), .raise .terminate, .stop .terminate, .act, .act,
    .exit 1 .console .ok, .act, .act, .exit 1 .bgp .cancelled, .act, .exit 1 .kernel .ok, .act]

/-- The worker that a wind-down waits for. -/
def State.awaits (s : State) : Option Role :=
  match s.pc with
  | .wind (.join r :: _) _ => some r
  | _ => none

theorem reloadMoves_awaits : (Lts.exec step (reloadMoves.take 5) (init exampleConfig)).map
    (fun r => r.2.awaits) = some (some .console) := by
  decide +kernel

theorem example_generations_disjoint : ∃ xs s t, Lts.Trace Step (init exampleConfig) xs s ∧
    s.awaits = some .console ∧ s.tasks s.generation .console = some t ∧ t.aborted = true := by
  obtain ⟨⟨xs, s⟩, hr, he⟩ := Option.map_eq_some_iff.mp reloadMoves_awaits
  have htrace := Lts.exec_trace hr
  have hmain := (generations_disjoint exampleConfig_valid htrace).2.2
  have hwait : s.awaits = some .console := he
  unfold State.awaits at he
  split at he
  · rename_i r todo next hpc
    cases he
    obtain ⟨t, ht, hab⟩ := hmain .console todo next hpc
    exact ⟨xs, s, t, htrace, hwait, ht, hab⟩
  · cases he

/-! Configurations and results. -/

def Label.reload : Label → Option Config
  | .reloaded config => some config
  | _ => none

/-- The configuration accepted last. -/
def accepted (config : Config) (xs : List Label) : Config :=
  xs.foldl (fun c a => a.reload.getD c) config

theorem accepted_snoc : accepted config (xs ++ [a]) = a.reload.getD (accepted config xs) := by
  rw [accepted, List.foldl_append]
  rfl

/-- Where a run can be after what has happened in it. -/
def Justified (config : Config) (xs : List Label) (s : State) : Prop :=
  match s.pc with
  | .bind | .watch => s.config = accepted config xs ∧ ∀ r, .lost r ∉ xs
  | .wind _ (.replace (some c)) => c = accepted config xs ∧ ∀ r, .lost r ∉ xs
  | .wind _ (.replace none) | .returned (.ok ()) => .stopping ∈ xs ∧ ∀ r, .lost r ∉ xs
  | .wind _ (.fail _) | .returned (.error _) => True

theorem lost_snoc (h : ∀ r, Label.lost r ∉ xs) (ha : ∀ r, a ≠ .lost r) :
    ∀ r, Label.lost r ∉ xs ++ [a] := by
  intro r hm
  rcases List.mem_append.mp hm with hm | hm
  · exact h r hm
  · exact ha r (List.mem_singleton.mp hm).symm

theorem accepted_same (hr : a.reload = none) :
    accepted config (xs ++ [a]) = accepted config xs := by
  rw [accepted_snoc, hr]
  rfl

theorem Justified.snoc (h : Justified config xs s) (hpc : t.pc = s.pc) (hc : t.config = s.config)
    (hr : a.reload = none) (hl : ∀ r, a ≠ .lost r) : Justified config (xs ++ [a]) t := by
  unfold Justified at h ⊢
  rw [hpc, hc, accepted_same hr]
  split
  all_goals
    rename_i hp
    rw [hp] at h
    first
    | trivial
    | exact ⟨h.1, lost_snoc h.2 hl⟩
    | exact ⟨List.mem_append_left _ h.1, lost_snoc h.2 hl⟩

/-- An action of the wind-down changes nothing about what follows it. -/
theorem Justified.act {b : Action} {todo : List Action} {next : Next}
    (h : Justified config xs s) (hpc : s.pc = .wind (b :: todo) next) (ht : t.pc = .wind todo next)
    (hc : t.config = s.config) : Justified config (xs ++ [.tau]) t := by
  have hsnoc := h.snoc (t := s) (a := .tau) rfl rfl rfl (by simp)
  unfold Justified at hsnoc ⊢
  rw [hpc] at hsnoc
  rw [ht, hc]
  cases next with
  | fail r => trivial
  | replace c => cases c <;> exact hsnoc

theorem justified_step (h : Justified config xs s) (hstep : Step s a t) :
    Justified config (xs ++ [a]) t := by
  have hs := h
  unfold Justified at h
  cases hstep.effect with
  | raised => exact hs.snoc rfl rfl rfl (by simp)
  | rejected => exact hs.snoc rfl rfl rfl (by simp)
  | exited => exact hs.snoc rfl rfl rfl (by simp)
  | unbound | failed | lost => trivial
  | spawned hpc =>
    rw [hpc] at h
    exact ⟨h.1.trans (accepted_same rfl).symm, lost_snoc h.2 (by simp)⟩
  | reloaded hpc =>
    rw [hpc] at h
    exact ⟨by rw [accepted_snoc]; rfl, lost_snoc h.2 (by simp)⟩
  | stopping hpc =>
    rw [hpc] at h
    exact ⟨by simp, lost_snoc h.2 (by simp)⟩
  | halted hpc | aborted hpc | joined hpc => exact hs.act hpc rfl rfl
  | replaced hpc =>
    rw [hpc] at h
    exact ⟨h.1.trans (accepted_same rfl).symm, lost_snoc h.2 (by simp)⟩
  | finished hpc =>
    rw [hpc] at h
    exact ⟨List.mem_append_left _ h.1, lost_snoc h.2 (by simp)⟩

/-- After a worker was lost there is no way back. -/
def Doomed (s : State) : Prop :=
  (∃ todo r, s.pc = .wind todo (.fail r)) ∨ ∃ e, s.pc = .returned (.error e)

theorem doomed_step (h : Doomed s) (hstep : Step s a t) :
    Doomed t ∧ (∀ c, a ≠ .spawned c) ∧ a ≠ .returned (.ok ()) := by
  rcases h with ⟨todo, r, hpc⟩ | ⟨e, hpc⟩
  · cases hstep.effect with
    | raised | exited => exact ⟨Or.inl ⟨todo, r, hpc⟩, by simp, by simp⟩
    | halted hpc' | aborted hpc' | joined hpc' =>
      rw [hpc] at hpc'
      cases hpc'
      exact ⟨Or.inl ⟨_, r, rfl⟩, by simp, by simp⟩
    | failed => exact ⟨Or.inr ⟨_, rfl⟩, by simp, by simp⟩
    | spawned hpc' | unbound hpc' | lost hpc' | reloaded hpc' | rejected hpc' | stopping hpc'
    | replaced hpc' | finished hpc' =>
      rw [hpc] at hpc'
      cases hpc'
  · cases hstep.effect with
    | raised | exited => exact ⟨Or.inr ⟨e, hpc⟩, by simp, by simp⟩
    | halted hpc' | aborted hpc' | joined hpc' | failed hpc' | spawned hpc' | unbound hpc'
    | lost hpc' | reloaded hpc' | rejected hpc' | stopping hpc' | replaced hpc' | finished hpc' =>
      rw [hpc] at hpc'
      cases hpc'

/-- From there on nothing is spawned and no success is returned. -/
theorem doomed_trace {ys : List Label} (hs : Doomed s) (h : Lts.Trace Step s ys t) :
    Doomed t ∧ (∀ c, .spawned c ∉ ys) ∧ .returned (.ok ()) ∉ ys := by
  refine h.history (P := fun ys t => Doomed t ∧ (∀ c, .spawned c ∉ ys) ∧
    .returned (.ok ()) ∉ ys) ⟨hs, by simp, by simp⟩ ?_
  rintro ys t a u ⟨ht, hspawned, hok⟩ ha
  obtain ⟨hu, hne, hne'⟩ := doomed_step ht ha
  refine ⟨hu, ?_, ?_⟩
  · intro c hm
    rcases List.mem_append.mp hm with hm | hm
    · exact hspawned c hm
    · exact hne c (List.mem_singleton.mp hm).symm
  · intro hm
    rcases List.mem_append.mp hm with hm | hm
    · exact hok hm
    · exact hne' (List.mem_singleton.mp hm).symm

theorem justified_of_trace (h : Lts.Trace Step (init config) xs s) : Justified config xs s :=
  h.history (P := Justified config) ⟨rfl, by simp⟩ (fun _ _ _ _ hs ha => justified_step hs ha)

/-- Every generation runs the configuration accepted last, which is valid; a lost worker ends the
daemon with an error; success is returned only on a signal to stop; and a rejected reload changes
nothing. -/
theorem supervised (hv : config.validate = .ok ()) (h : Lts.Trace Step (init config) xs s) :
    (∀ ys c zs, xs = ys ++ .spawned c :: zs → c = accepted config ys ∧ c.validate = .ok ()) ∧
      (∀ ys r zs, xs = ys ++ .lost r :: zs →
        (∀ c, .spawned c ∉ zs) ∧ .returned (.ok ()) ∉ zs) ∧
      (∀ ys zs, xs = ys ++ .returned (.ok ()) :: zs → .stopping ∈ ys) ∧
      ∀ t, Step s .rejected t → t.pc = s.pc ∧ t.config = s.config ∧
        t.generation = s.generation ∧ t.tasks = s.tasks ∧ t.halted = s.halted := by
  refine ⟨?_, ?_, ?_, ?_⟩
  · rintro ys c zs rfl
    obtain ⟨u, v, hu, hstep, -⟩ := h.cut
    have hj := justified_of_trace hu
    unfold Justified at hj
    cases hstep.effect with
    | spawned hpc =>
      rw [hpc] at hj
      exact ⟨hj.1, (orderly_of_trace hv hu).valid⟩
  · rintro ys r zs rfl
    obtain ⟨u, v, -, hstep, htail⟩ := h.cut
    have hdoomed : Doomed v := by
      cases hstep.effect with
      | lost => exact Or.inl ⟨_, r, rfl⟩
    exact (doomed_trace hdoomed htail).2
  · rintro ys zs rfl
    obtain ⟨u, v, hu, hstep, -⟩ := h.cut
    have hj := justified_of_trace hu
    unfold Justified at hj
    cases hstep.effect with
    | finished hpc =>
      rw [hpc] at hj
      exact hj.1
  · intro t hstep
    cases hstep.effect with
    | rejected => exact ⟨rfl, rfl, rfl, rfl, rfl⟩

def Label.succeeds : Label → Bool
  | .returned (.ok ()) => true
  | _ => false

theorem reloadMoves_exec : (Lts.exec step (reloadMoves ++ [.settle]) (init exampleConfig)).map
    (fun r => (r.1.any Label.succeeds, r.2.generation)) = some (true, 1) := by
  decide +kernel

theorem example_supervised : ∃ ys zs s, Lts.Trace Step (init exampleConfig)
    (ys ++ .returned (.ok ()) :: zs) s ∧ s.generation = 1 ∧ .stopping ∈ ys := by
  obtain ⟨⟨xs, s⟩, hr, he⟩ := Option.map_eq_some_iff.mp reloadMoves_exec
  simp only [Prod.mk.injEq] at he
  obtain ⟨a, ha, hlabel⟩ := List.any_eq_true.mp he.1
  obtain ⟨ys, zs, rfl⟩ := List.append_of_mem ha
  obtain rfl : a = .returned (.ok ()) := by
    unfold Label.succeeds at hlabel
    split at hlabel
    · rfl
    · cases hlabel
  have htrace := Lts.exec_trace hr
  exact ⟨ys, zs, s, htrace, he.2, (supervised exampleConfig_valid htrace).2.2.1 ys zs rfl⟩

end Supervisor
end Ubgp
