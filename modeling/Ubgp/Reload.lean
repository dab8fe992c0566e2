import Ubgp.Generation
import Ubgp.Supervisor

/-! The daemon across reloads (`run` in `main.rs`): the supervisor with the workers of its current
generation, and what the neighbours hold of it. -/
namespace Ubgp
namespace Reload
open Supervisor (Role)

/-- `workers` are those spawned last, whether or not they still run. -/
structure State (Conn : Type) where
  supervisor : Supervisor.State
  workers : Generation.State Conn

structure Label (Conn : Type) where
  supervisor : Option Supervisor.Label
  workers : Option (Generation.Label Conn)

/-- A generation is spawned with what the kernel holds by then. -/
inductive Move (Conn : Type)
  | bind (result : Except String Unit) (clock : ℕ → ℕ) (now : ℕ)
      (routes : Finset Netlink.KernelRoute)
  | supervisor (m : Supervisor.Move)
  | worker (m : Generation.Move Conn)

def init {Conn : Type} (config : Config) : State Conn :=
  ⟨Supervisor.init config, Generation.init config id 0 ∅⟩

/-- The task of the current generation has not ended. -/
def runs (s : Supervisor.State) (r : Role) : Bool :=
  (s.tasks s.generation r).any (fun t => t.exit.isNone)

namespace State
variable {Conn : Type} (s : State Conn)

/-- What a step of the supervisor is to the workers: it stores the stop flag, and the task of the
netlink worker ends when that worker has returned and dropped its channel. -/
def shared : Supervisor.Move → Option (Generation.Move Conn)
  | .act =>
    match s.supervisor.pc with
    | .wind (.halt :: _) _ => if s.workers.ended then none else some (.kernel .halt)
    | _ => none
  | .exit g .kernel _ => if g = s.supervisor.generation then some .ended else none
  | _ => none

/-- Workers move while their task runs; the kernel, the clock and the neighbours always may. -/
def allows : Generation.Move Conn → Bool
  | .kernel (.work _) | .kernel .expire => runs s.supervisor .kernel
  | .kernel .halt | .ended => false
  | .kernel _ | .tick _ => true
  | .accept _ _ _ | .work _ _ | .joined _ _ _ _ | .handshake _ _ => runs s.supervisor .bgp

/-- The routes that a neighbour has of an established session. Closing TCP withdraws them, and the
connections of a BGP task are closed when it ends. -/
def table (q : ℕ) : Prefixes :=
  if runs s.supervisor .bgp then
    match (s.workers.bgp.loops q).phase with
    | .running _ _ _ session =>
      match session.phase with
      | .established _ _ => s.workers.table q
      | _ => ∅
    | _ => ∅
  else ∅

end State

def step {Conn : Type} [DecidableEq Conn] (s : State Conn) :
    Move Conn → Option (Label Conn × State Conn)
  | .bind result clock now routes => do
    let (a, supervisor) ← Supervisor.step s.supervisor (.bind result)
    let workers := match a with
      | .spawned cfg => Generation.init cfg clock now routes
      | _ => s.workers
    return (⟨some a, none⟩, ⟨supervisor, workers⟩)
  | .supervisor (.bind _) => none
  | .supervisor m => do
    let (a, supervisor) ← Supervisor.step s.supervisor m
    match s.shared m with
    | none => return (⟨some a, none⟩, { s with supervisor })
    | some m =>
      let (b, workers) ← Generation.step s.supervisor.config s.workers m
      return (⟨some a, some b⟩, ⟨supervisor, workers⟩)
  | .worker m =>
    if s.allows m then do
      let (b, workers) ← Generation.step s.supervisor.config s.workers m
      return (⟨none, some b⟩, { s with workers })
    else none

def Step {Conn : Type} [DecidableEq Conn] (s : State Conn) (a : Label Conn) (t : State Conn) :
    Prop :=
  ∃ m, step s m = some (a, t)

/-! What one step can do. -/

variable {Conn : Type} {s t : State Conn} {a : Label Conn} {xs zs : List (Label Conn × State Conn)}
  {config : Config} {q : ℕ} {P : Peer}

/-- The supervisor's part in a step that spawns nothing. -/
inductive Supervises (s : Supervisor.State) : Option Supervisor.Label → Supervisor.State → Prop
  | idle : Supervises s none s
  | step {a : Supervisor.Label} {t : Supervisor.State} (h : Supervisor.Step s a t)
      (ha : ∀ c, a ≠ .spawned c) : Supervises s (some a) t

/-- The workers' part in a step that spawns nothing. -/
inductive Works [DecidableEq Conn] (cfg : Config) (s : Generation.State Conn) :
    Option (Generation.Label Conn) → Generation.State Conn → Prop
  | idle : Works cfg s none s
  | step {b : Generation.Label Conn} {t : Generation.State Conn} (h : Generation.Step cfg s b t) :
      Works cfg s (some b) t

inductive Effect [DecidableEq Conn] (s : State Conn) : Label Conn → State Conn → Prop
  | spawned {clock : ℕ → ℕ} {now : ℕ} {routes : Finset Netlink.KernelRoute}
      {supervisor : Supervisor.State}
      (hs : Supervisor.Step s.supervisor (.spawned s.supervisor.config) supervisor)
      (hc : supervisor.config = s.supervisor.config) :
      Effect s ⟨some (.spawned s.supervisor.config), none⟩
        ⟨supervisor, Generation.init s.supervisor.config clock now routes⟩
  | moved {a : Option Supervisor.Label} {b : Option (Generation.Label Conn)}
      {supervisor : Supervisor.State} {workers : Generation.State Conn}
      (hs : Supervises s.supervisor a supervisor)
      (hw : Works s.supervisor.config s.workers b workers) : Effect s ⟨a, b⟩ ⟨supervisor, workers⟩

/-- Only a bound management address lets the supervisor spawn. -/
theorem spawned_move {m : Supervisor.Move} {u v : Supervisor.State} {c : Config}
    (h : Supervisor.step u m = some (.spawned c, v)) : ∃ result, m = .bind result := by
  cases m with
  | bind result => exact ⟨result, rfl⟩
  | raise sig => cases h
  | exit g r exit =>
    simp only [Supervisor.step] at h
    split at h <;> cases h
  | joined r =>
    simp only [Supervisor.step] at h
    split at h <;> cases h
  | hangup file =>
    simp only [Supervisor.step] at h
    split at h
    · split at h <;> cases h
    · cases h
  | stop sig =>
    simp only [Supervisor.step] at h
    split at h
    · split at h <;> cases h
    · cases h
  | act =>
    simp only [Supervisor.step] at h
    split at h
    · obtain ⟨w, -, hw⟩ := Option.map_eq_some_iff.mp h
      cases hw
    · cases h
  | settle =>
    have hstep : Supervisor.Step u (.spawned c) v := ⟨.settle, h⟩
    simp only [Supervisor.step] at h
    split at h
    · rename_i hpc
      cases hstep.effect with
      | spawned hbind => cases hpc.symm.trans hbind
    · cases h

theorem Step.effect [DecidableEq Conn] (h : Step s a t) : Effect s a t := by
  obtain ⟨m, h⟩ := h
  unfold step at h
  split at h
  case h_1 result clock now routes =>
    simp only [Option.bind_eq_bind, Option.bind_eq_some_iff, Option.pure_def, Option.some.injEq,
      Prod.exists, Prod.mk.injEq] at h
    obtain ⟨a, supervisor, hs, rfl, rfl⟩ := h
    have hstep : Supervisor.Step s.supervisor a supervisor := ⟨_, hs⟩
    cases a with
    | spawned cfg =>
      have heffect := hstep.effect
      cases heffect with
      | spawned => exact .spawned hstep rfl
    | _ => exact .moved (.step hstep (by simp)) .idle
  case h_2 => cases h
  case h_3 m hm =>
    simp only [Option.bind_eq_bind, Option.bind_eq_some_iff, Prod.exists] at h
    obtain ⟨a, supervisor, hs, h⟩ := h
    have hsup : Supervises s.supervisor (some a) supervisor := by
      refine .step ⟨m, hs⟩ ?_
      rintro c rfl
      obtain ⟨result, hbind⟩ := spawned_move hs
      exact hm result hbind
    split at h
    · cases h
      exact .moved hsup .idle
    · simp only [Option.bind_eq_some_iff, Option.pure_def, Option.some.injEq, Prod.exists,
        Prod.mk.injEq] at h
      obtain ⟨b, workers, hw, rfl, rfl⟩ := h
      exact .moved hsup (.step ⟨_, hw⟩)
  case h_4 m =>
    simp only [Option.ite_none_right_eq_some, Option.bind_eq_bind, Option.bind_eq_some_iff,
      Option.pure_def, Option.some.injEq, Prod.exists, Prod.mk.injEq] at h
    obtain ⟨-, b, workers, hw, rfl, rfl⟩ := h
    exact .moved .idle (.step ⟨m, hw⟩)

/-! The runs within a run. -/

/-- The run of the supervisor. -/
def supervision (xs : List (Label Conn × State Conn)) : List Supervisor.Label :=
  xs.filterMap (fun x => x.1.supervisor)

/-- The run of the workers, where none are spawned in between. -/
def work (xs : List (Label Conn × State Conn)) :
    List (Generation.Label Conn × Generation.State Conn) :=
  xs.filterMap (fun x => x.1.workers.map (fun b => (b, x.2.workers)))

theorem supervision_snoc :
    supervision (xs ++ [(a, t)]) = supervision xs ++ a.supervisor.toList := by
  rw [supervision, List.filterMap_append, ← supervision]
  cases h : a.supervisor <;> simp [h]

theorem work_snoc : work (xs ++ [(a, t)]) =
    work xs ++ (a.workers.map (fun b => (b, t.workers))).toList := by
  rw [work, List.filterMap_append, ← work]
  cases h : a.workers <;> simp [h]

/-- The workers are spawned and not yet wound down. -/
def Working (s : Supervisor.State) : Prop :=
  s.pc = .watch ∨ ∃ todo next, s.pc = .wind todo next

theorem supervisor_working {u v : Supervisor.State} {b : Supervisor.Label}
    (h : Supervisor.Step u b v) (hb : ∀ c, b ≠ .spawned c) (hv : Working v) :
    Working u ∧ v.config = u.config := by
  have hwatch : u.pc = .watch → Working u := Or.inl
  have hwind : ∀ {todo next}, u.pc = .wind todo next → Working u :=
    fun hpc => Or.inr ⟨_, _, hpc⟩
  cases h.effect with
  | raised | exited => exact ⟨hv, rfl⟩
  | spawned => exact absurd rfl (hb _)
  | lost hpc | reloaded hpc | rejected hpc | stopping hpc => exact ⟨hwatch hpc, rfl⟩
  | halted hpc | aborted hpc | joined hpc => exact ⟨hwind hpc, rfl⟩
  | unbound | failed | replaced | finished =>
    rcases hv with hpc | ⟨_, _, hpc⟩ <;> cases hpc

/-- The part of a run since the workers were spawned: their configuration was the one accepted
last, and they are in a run of their own. -/
structure Spawned (config : Config) (ys zs : List (Label Conn × State Conn))
    (u s : State Conn) (xs : List (Label Conn × State Conn)) : Prop where
  split : xs = ys ++ (⟨some (.spawned s.supervisor.config), none⟩, u) :: zs
  last : ∀ x ∈ zs, ∀ c, x.1.supervisor ≠ some (.spawned c)
  accepted : s.supervisor.config = Supervisor.accepted config (supervision ys)
  sound : ∃ t₀ routes, Generation.Sound s.supervisor.config t₀ routes (work zs) s.workers

/-- The supervisor is in a run of its own, and so are the workers it has spawned. -/
structure Sound (config : Config) (xs : List (Label Conn × State Conn)) (s : State Conn) : Prop
    where
  trace : Lts.Trace Supervisor.Step (Supervisor.init config) (supervision xs) s.supervisor
  spawned : Working s.supervisor → ∃ ys zs u, Spawned config ys zs u s xs

variable [DecidableEq Conn]

theorem Sound.step (hv : config.validate = .ok ()) (h : Sound config xs s) (ha : Step s a t) :
    Sound config (xs ++ [(a, t)]) t := by
  have heffect := ha.effect
  cases heffect with
  | @spawned clock now routes supervisor hs hc =>
    refine ⟨by rw [supervision_snoc]; exact .snoc h.trace hs, fun _ => ?_⟩
    have horderly := Supervisor.orderly_of_trace hv h.trace
    have haccepted : s.supervisor.config = Supervisor.accepted config (supervision xs) := by
      have hj := Supervisor.justified_of_trace h.trace
      unfold Supervisor.Justified at hj
      cases hs.effect with
      | spawned hpc =>
        rw [hpc] at hj
        exact hj.1
    refine ⟨xs, [], ⟨supervisor, Generation.init s.supervisor.config clock now routes⟩,
      by rw [hc], by simp, hc.trans haccepted, now, routes, ?_⟩
    simp only [hc]
    exact Generation.init_sound horderly.valid
  | @moved b c supervisor workers hs hw =>
    have hworking : Working supervisor →
        Working s.supervisor ∧ supervisor.config = s.supervisor.config := by
      intro hp
      cases hs with
      | idle => exact ⟨hp, rfl⟩
      | step hstep hne => exact supervisor_working hstep hne hp
    refine ⟨?_, fun hp => ?_⟩
    · rw [supervision_snoc]
      cases hs with
      | idle => simpa using h.trace
      | step hstep _ => exact .snoc h.trace hstep
    · obtain ⟨hbefore, hconfig⟩ := hworking hp
      obtain ⟨ys, zs, u, hspawned⟩ := h.spawned hbefore
      obtain ⟨t₀, routes, hsound⟩ := hspawned.sound
      refine ⟨ys, zs ++ [(⟨b, c⟩, ⟨supervisor, workers⟩)], u, ?_, ?_, ?_, t₀, routes, ?_⟩
      · simp only [hconfig]
        rw [hspawned.split]
        simp
      · intro x hx
        rcases List.mem_append.mp hx with hx | hx
        · exact hspawned.last x hx
        · rw [List.mem_singleton.mp hx]
          cases hs with
          | idle => simp
          | step _ hne =>
            intro cfg hcfg
            exact hne cfg (Option.some.inj hcfg)
      · simp only [hconfig]
        exact hspawned.accepted
      · rw [work_snoc]
        simp only [hconfig]
        cases hw with
        | idle => simpa using hsound
        | step hstep => exact hsound.step hstep

theorem Sound.of_trace (hv : config.validate = .ok ())
    (h : Lts.Trace (Lts.Recorded Step) (init config) xs s) : Sound config xs s := by
  refine h.history (P := Sound config) ⟨.refl, ?_⟩ ?_
  · rintro (hpc | ⟨_, _, hpc⟩) <;> cases hpc
  · rintro xs s ⟨a, u⟩ t hs ⟨ha, rfl⟩
    exact hs.step hv ha

end Reload
end Ubgp
