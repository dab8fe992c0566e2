import Ubgp.Cli
import Ubgp.Load

/-! The process (`main` in `main.rs`): its arguments, its configuration, the detaching, and the
supervisor from there on. -/
namespace Ubgp
namespace Startup

/-- `std::path::absolute` and the TOML parser. -/
structure System where
  absolute : Bytes → Except String Bytes
  toml : Bytes → Except (Option ℕ) Config

/-- What `main` fails with; the contexts are "resolving configuration path", "detaching daemon" and
"creating Tokio runtime". -/
inductive Failure
  | complaint (e : Cli.Complaint)
  | resolving (e : String)
  | configuration (m : Message)
  | detaching (e : String)
  | runtime (e : String)
  | supervisor (e : String)

/-- Where `main` stands. -/
inductive State
  | parse (args : List Bytes)
  | resolve (o : Cli.Options)
  | load (o : Cli.Options) (path : Bytes)
  | loaded (o : Cli.Options) (path : Bytes) (cfg : Config)
  | log (o : Cli.Options) (path : Bytes) (cfg : Config)
  | build (path : Bytes) (cfg : Config)
  | running (path : Bytes) (s : Supervisor.State)
  | exited (result : Except Failure Unit)

inductive Label
  | printed
  | opened (path : Bytes) (content : Config.Content)
  | detached
  | logging (background debug : Bool)
  | supervisor (a : Supervisor.Label)
  | reload (path : Bytes) (a : Supervisor.Label)
  | exited

inductive Move
  | parse
  | resolve
  | load (content : Config.Content)
  | launch (detached : Except String Unit)
  | log
  | build (runtime : Except String Unit)
  | supervise (m : Supervisor.Move)
  | reload (content : Config.Content)
  | finish

/-- The supervisor reads no files by itself. -/
def ownMove : Supervisor.Move → Bool
  | .hangup _ => false
  | _ => true

variable (sys : System)

/-- Steps without an effect outside the process have no label. -/
def step (s : State) (m : Move) : Option (Option Label × State) :=
  match s, m with
  | .parse args, .parse =>
    match Cli.parse args with
    | .error e => some (none, .exited (.error (.complaint e)))
    | .ok (.run o) => some (none, .resolve o)
    | .ok _ => some (some .printed, .exited (.ok ()))
  | .resolve o, .resolve =>
    match sys.absolute o.path with
    | .error e => some (none, .exited (.error (.resolving e)))
    | .ok path => some (none, .load o path)
  | .load o path, .load content =>
    match Config.load sys.toml content with
    | .error m => some (some (.opened path content), .exited (.error (.configuration m)))
    | .ok cfg => some (some (.opened path content), .loaded o path cfg)
  | .loaded o path cfg, .launch detached =>
    if o.check then some (some .printed, .exited (.ok ()))
    else if o.daemon then
      match detached with
      | .error e => some (none, .exited (.error (.detaching e)))
      | .ok () => some (some .detached, .log o path cfg)
    else some (none, .log o path cfg)
  | .log o path cfg, .log => some (some (.logging o.daemon o.debug), .build path cfg)
  | .build path cfg, .build runtime =>
    match runtime with
    | .error e => some (none, .exited (.error (.runtime e)))
    | .ok () => some (none, .running path (Supervisor.init cfg))
  | .running path s, .supervise m =>
    if ownMove m then
      (Supervisor.step s m).map (fun r => (some (.supervisor r.1), .running path r.2))
    else none
  | .running path s, .reload content =>
    (Supervisor.step s (.hangup (content >>= Config.parse sys.toml))).map
      (fun r => (some (.reload path r.1), .running path r.2))
  | .running _ s, .finish =>
    match s.pc with
    | .returned result => some (some .exited, .exited (result.mapError .supervisor))
    | _ => none
  | _, _ => none

def Step (s : State) (a : Option Label) (t : State) : Prop := ∃ m, step sys s m = some (a, t)

/-! What one step can do. -/

inductive Effect (sys : System) : State → Option Label → State → Prop
  | complained {args : List Bytes} {result : Except Failure Unit} :
      Effect sys (.parse args) none (.exited result)
  | informed {args : List Bytes} : Effect sys (.parse args) (some .printed) (.exited (.ok ()))
  | parsed {args : List Bytes} {o : Cli.Options} (h : Cli.parse args = .ok (.run o)) :
      Effect sys (.parse args) none (.resolve o)
  | unresolved {o : Cli.Options} {result : Except Failure Unit} :
      Effect sys (.resolve o) none (.exited result)
  | resolved {o : Cli.Options} {path : Bytes} (h : sys.absolute o.path = .ok path) :
      Effect sys (.resolve o) none (.load o path)
  | refused {o : Cli.Options} {path : Bytes} {content : Config.Content}
      {result : Except Failure Unit} :
      Effect sys (.load o path) (some (.opened path content)) (.exited result)
  | loaded {o : Cli.Options} {path : Bytes} {content : Config.Content} {cfg : Config}
      (h : Config.load sys.toml content = .ok cfg) :
      Effect sys (.load o path) (some (.opened path content)) (.loaded o path cfg)
  | checked {o : Cli.Options} {path : Bytes} {cfg : Config} (h : o.check = true) :
      Effect sys (.loaded o path cfg) (some .printed) (.exited (.ok ()))
  | attached {o : Cli.Options} {path : Bytes} {cfg : Config} {result : Except Failure Unit} :
      Effect sys (.loaded o path cfg) none (.exited result)
  | detached {o : Cli.Options} {path : Bytes} {cfg : Config} (hc : o.check = false)
      (hd : o.daemon = true) : Effect sys (.loaded o path cfg) (some .detached) (.log o path cfg)
  | foreground {o : Cli.Options} {path : Bytes} {cfg : Config} (hc : o.check = false)
      (hd : o.daemon = false) : Effect sys (.loaded o path cfg) none (.log o path cfg)
  | logging {o : Cli.Options} {path : Bytes} {cfg : Config} :
      Effect sys (.log o path cfg) (some (.logging o.daemon o.debug)) (.build path cfg)
  | unbuilt {path : Bytes} {cfg : Config} {result : Except Failure Unit} :
      Effect sys (.build path cfg) none (.exited result)
  | built {path : Bytes} {cfg : Config} :
      Effect sys (.build path cfg) none (.running path (Supervisor.init cfg))
  | supervised {path : Bytes} {s t : Supervisor.State} {a : Supervisor.Label}
      (h : Supervisor.Step s a t) :
      Effect sys (.running path s) (some (.supervisor a)) (.running path t)
  | reload {path : Bytes} {s t : Supervisor.State} {a : Supervisor.Label}
      (h : Supervisor.Step s a t) :
      Effect sys (.running path s) (some (.reload path a)) (.running path t)
  | finished {path : Bytes} {s : Supervisor.State} {result : Except Failure Unit} :
      Effect sys (.running path s) (some .exited) (.exited result)

variable {sys} {s t : State} {a : Option Label} {xs : List (Option Label)} {args : List Bytes}

theorem Step.effect (h : Step sys s a t) : Effect sys s a t := by
  obtain ⟨m, h⟩ := h
  unfold step at h
  split at h
  · split at h
    · cases h
      exact .complained
    · rename_i hp
      cases h
      exact .parsed hp
    · cases h
      exact .informed
  · split at h
    · cases h
      exact .unresolved
    · rename_i hp
      cases h
      exact .resolved hp
  · split at h
    · cases h
      exact .refused
    · rename_i hl
      cases h
      exact .loaded hl
  · rename_i o path cfg detached
    cases hc : o.check with
    | true =>
      rw [hc, if_pos rfl] at h
      cases h
      exact .checked hc
    | false =>
      rw [hc, if_neg (by simp)] at h
      cases hd : o.daemon with
      | true =>
        rw [hd, if_pos rfl] at h
        split at h
        · cases h
          exact .attached
        · cases h
          exact .detached hc hd
      | false =>
        rw [hd, if_neg (by simp)] at h
        cases h
        exact .foreground hc hd
  · cases h
    exact .logging
  · split at h
    · cases h
      exact .unbuilt
    · cases h
      exact .built
  · simp only [Option.ite_none_right_eq_some, Option.map_eq_some_iff, Prod.exists,
      Prod.mk.injEq] at h
    obtain ⟨-, b, u, hstep, rfl, rfl⟩ := h
    exact .supervised ⟨_, hstep⟩
  · simp only [Option.map_eq_some_iff, Prod.exists, Prod.mk.injEq] at h
    obtain ⟨b, u, hstep, rfl, rfl⟩ := h
    exact .reload ⟨_, hstep⟩
  · split at h
    · cases h
      exact .finished
    · cases h
  · cases h

/-! What has been done before. -/

/-- The arguments ask for these options. -/
def Asked (args : List Bytes) (o : Cli.Options) : Prop :=
  ∃ cs, Cli.Line args cs .run ∧ o = Cli.Options.default.after cs

/-- The file that was asked for was opened, and a valid configuration loaded from it. -/
structure Prepared (sys : System) (args : List Bytes) (xs : List (Option Label)) (o : Cli.Options)
    (path : Bytes) (cfg : Config) : Prop where
  asked : Asked args o
  absolute : sys.absolute o.path = .ok path
  loaded : ∃ content, some (.opened path content) ∈ xs ∧ Config.load sys.toml content = .ok cfg
  valid : cfg.validate = .ok ()

/-- It is to be run, in the background or not. -/
structure Placed (sys : System) (args : List Bytes) (xs : List (Option Label)) (o : Cli.Options)
    (path : Bytes) (cfg : Config) : Prop extends Prepared sys args xs o path cfg where
  unchecked : o.check = false
  background : some .detached ∈ xs ↔ o.daemon = true

/-- Neither detached nor anything of the supervisor. -/
def Still (xs : List (Option Label)) : Prop :=
  some .detached ∉ xs ∧ ∀ b, some (.supervisor b) ∉ xs

def Stage (sys : System) (args : List Bytes) (xs : List (Option Label)) : State → Prop
  | .parse args' => args' = args ∧ Still xs
  | .resolve o => Asked args o ∧ Still xs
  | .load o path => Asked args o ∧ sys.absolute o.path = .ok path ∧ Still xs
  | .loaded o path cfg => Prepared sys args xs o path cfg ∧ Still xs
  | .log o path cfg => Placed sys args xs o path cfg
  | .build path cfg => ∃ o, Placed sys args xs o path cfg ∧
      some (.logging o.daemon o.debug) ∈ xs
  | .running path s => Supervisor.Orderly s ∧ ∃ o cfg, Placed sys args xs o path cfg ∧
      some (.logging o.daemon o.debug) ∈ xs
  | .exited _ => True

theorem Still.snoc (h : Still xs) (hd : a ≠ some .detached) (hs : ∀ b, a ≠ some (.supervisor b)) :
    Still (xs ++ [a]) := by
  constructor
  · intro hm
    rcases List.mem_append.mp hm with hm | hm
    · exact h.1 hm
    · exact hd (List.mem_singleton.mp hm).symm
  · intro b hm
    rcases List.mem_append.mp hm with hm | hm
    · exact h.2 b hm
    · exact hs b (List.mem_singleton.mp hm).symm

theorem Prepared.snoc {o : Cli.Options} {path : Bytes} {cfg : Config}
    (h : Prepared sys args xs o path cfg) (a : Option Label) :
    Prepared sys args (xs ++ [a]) o path cfg := by
  obtain ⟨content, hmem, hload⟩ := h.loaded
  exact { h with loaded := ⟨content, List.mem_append_left _ hmem, hload⟩ }

theorem Placed.snoc {o : Cli.Options} {path : Bytes} {cfg : Config}
    (h : Placed sys args xs o path cfg) (hd : a ≠ some .detached) :
    Placed sys args (xs ++ [a]) o path cfg where
  toPrepared := h.toPrepared.snoc a
  unchecked := h.unchecked
  background := by
    rw [List.mem_append, List.mem_singleton, or_iff_left (fun he => hd he.symm)]
    exact h.background

theorem Stage.step (h : Stage sys args xs s) (ha : Step sys s a t) :
    Stage sys args (xs ++ [a]) t := by
  cases ha.effect with
  | complained | informed | unresolved | refused | checked | attached | unbuilt | finished =>
    trivial
  | parsed hp =>
    obtain ⟨rfl, hstill⟩ := h
    exact ⟨Cli.run_of_parse hp, hstill.snoc (by simp) (by simp)⟩
  | resolved hp =>
    obtain ⟨hasked, hstill⟩ := h
    exact ⟨hasked, hp, hstill.snoc (by simp) (by simp)⟩
  | loaded hload =>
    obtain ⟨hasked, hpath, hstill⟩ := h
    refine ⟨⟨hasked, hpath, ⟨_, by simp, hload⟩, Config.load_eq_ok hload⟩, ?_⟩
    exact hstill.snoc (by simp) (by simp)
  | detached hc hd =>
    obtain ⟨hprepared, -⟩ := h
    exact ⟨hprepared.snoc _, hc, by simp [hd]⟩
  | foreground hc hd =>
    obtain ⟨hprepared, hstill⟩ := h
    exact ⟨hprepared.snoc _, hc, by simp [hd, hstill.1]⟩
  | logging => exact ⟨_, Placed.snoc h (by simp), by simp⟩
  | built =>
    obtain ⟨o, hplaced, hlog⟩ := h
    exact ⟨Supervisor.init_orderly hplaced.valid, o, _, hplaced.snoc (by simp),
      List.mem_append_left _ hlog⟩
  | supervised hs | reload hs =>
    obtain ⟨horderly, o, cfg, hplaced, hlog⟩ := h
    exact ⟨Supervisor.orderly_step horderly hs, o, cfg, hplaced.snoc (by simp),
      List.mem_append_left _ hlog⟩

theorem stage_of_trace (h : Lts.Trace (Step sys) (.parse args) xs s) : Stage sys args xs s :=
  h.history (P := Stage sys args) ⟨rfl, by simp [Still]⟩ (fun _ _ _ _ hs ha => hs.step ha)

/-- The configuration file a step opens. -/
def Label.path? : Label → Option Bytes
  | .opened path _ | .reload path _ => some path
  | _ => none

theorem opens_asked {b : Label} {path : Bytes} (hs : Stage sys args xs s)
    (ha : Step sys s (some b) t) (hb : b.path? = some path) :
    ∃ o, Asked args o ∧ sys.absolute o.path = .ok path := by
  generalize hc : some b = c at ha
  cases ha.effect with
  | refused | loaded =>
    cases hc
    cases hb
    exact ⟨_, hs.1, hs.2.1⟩
  | reload =>
    cases hc
    cases hb
    obtain ⟨-, o, _, hplaced, -⟩ := hs
    exact ⟨o, hplaced.asked, hplaced.absolute⟩
  | informed | checked | detached | logging | supervised | finished =>
    cases hc
    cases hb
  | _ => cases hc

/-- In every run of the process, whatever the system answers: the only file it ever opens, reloads
included, is the one its command line asks for; it detaches at most once, before anything of the
supervisor happens, and only if that was asked for and a valid configuration was loaded that is not
to be checked only; and a generation of workers is started only with a valid configuration, after
one was loaded from the file and logging set up as asked for, in the background if and only if the
command line says so. -/
theorem launched (h : Lts.Trace (Step sys) (.parse args) xs s) :
    (∀ b path, some b ∈ xs → b.path? = some path →
      ∃ o, Asked args o ∧ sys.absolute o.path = .ok path) ∧
    (∀ ys zs, xs = ys ++ some .detached :: zs →
      some .detached ∉ ys ++ zs ∧ (∀ b, some (.supervisor b) ∉ ys) ∧
      ∃ o path cfg, Prepared sys args ys o path cfg ∧ cfg.validate = .ok () ∧ o.daemon = true ∧
        o.check = false) ∧
    ∀ ys cfg zs, xs = ys ++ some (.supervisor (.spawned cfg)) :: zs → cfg.validate = .ok () ∧
      ∃ o path cfg₀, Placed sys args ys o path cfg₀ ∧ some (.logging o.daemon o.debug) ∈ ys := by
  have hdetach : ∀ ys zs, xs = ys ++ some .detached :: zs →
      Still ys ∧ ∃ o path cfg, Prepared sys args ys o path cfg ∧ cfg.validate = .ok () ∧
        o.daemon = true ∧ o.check = false := by
    rintro ys zs rfl
    obtain ⟨u, v, hu, hstep, -⟩ := h.cut
    have hstage := stage_of_trace hu
    cases hstep.effect with
    | detached hc hd => exact ⟨hstage.2, _, _, _, hstage.1, hstage.1.valid, hd, hc⟩
  refine ⟨?_, ?_, ?_⟩
  · intro b path hb hpath
    obtain ⟨ys, zs, rfl⟩ := List.append_of_mem hb
    obtain ⟨u, v, hu, hstep, -⟩ := h.cut
    exact opens_asked (stage_of_trace hu) hstep hpath
  · intro ys zs hxs
    obtain ⟨hstill, hprepared⟩ := hdetach ys zs hxs
    refine ⟨?_, hstill.2, hprepared⟩
    intro hm
    rcases List.mem_append.mp hm with hm | hm
    · exact hstill.1 hm
    · obtain ⟨zs₁, zs₂, rfl⟩ := List.append_of_mem hm
      obtain ⟨hstill', -⟩ := hdetach (ys ++ some .detached :: zs₁) zs₂ (by rw [hxs]; simp)
      exact hstill'.1 (by simp)
  · rintro ys cfg zs rfl
    obtain ⟨u, v, hu, hstep, -⟩ := h.cut
    have hstage := stage_of_trace hu
    cases hstep.effect with
    | supervised hs =>
      obtain ⟨horderly, o, cfg₀, hplaced, hlog⟩ := hstage
      cases hs.effect with
      | spawned => exact ⟨horderly.valid, o, _, cfg₀, hplaced, hlog⟩

/-- The configuration of the examples, without what has a default. -/
def exampleToml : Bytes := Cli.word ("asn = 64512\nrouter_id = '192.0.2.1'\n" ++
  "[[acls.export.rules]]\naction = 'deny'\nprefix = '203.0.113.128/25'\n" ++
  "min_length = 25\nmax_length = 32\n" ++
  "[[acls.export.rules]]\naction = 'permit'\nprefix = '198.51.100.0/24'\n" ++
  "[[acls.export.rules]]\naction = 'permit'\nprefix = '203.0.113.0/24'\n" ++
  "min_length = 26\nmax_length = 32\n" ++
  "[[peers]]\naddress = '192.0.2.2'\nlocal_address = '192.0.2.1'\ninterface = 'eth0'\n" ++
  "remote_asn = 64513\nexport_acl = 'export'\n")

/-- A process started in the root directory, on that file. -/
def exampleSystem : System where
  absolute := fun path => .ok (Cli.word "/" ++ path)
  toml := fun _ => .ok exampleConfig

/-- `ubgp -d -c ubgp.toml`. -/
def exampleArgs : List Bytes := [Cli.word "-d", Cli.word "-c", Cli.word "ubgp.toml"]

def exampleMoves : List Move :=
  [.parse, .resolve, .load (.ok exampleToml), .launch (.ok ()), .log, .build (.ok ()),
    .supervise (.bind (.ok ()))]

def Label.spawns : Label → Bool
  | .supervisor (.spawned _) => true
  | _ => false

theorem exampleMoves_exec :
    (Lts.exec (step exampleSystem) exampleMoves (.parse exampleArgs)).map
      (fun r => r.1.any (fun a => a.any Label.spawns)) = some true := by
  decide +kernel

theorem example_launched : ∃ xs s, Lts.Trace (Step exampleSystem) (.parse exampleArgs) xs s ∧
    ∃ ys cfg zs, xs = ys ++ some (.supervisor (.spawned cfg)) :: zs ∧ cfg.validate = .ok () ∧
      ∃ o path cfg₀, Placed exampleSystem exampleArgs ys o path cfg₀ := by
  obtain ⟨⟨xs, s⟩, hr, hany⟩ := Option.map_eq_some_iff.mp exampleMoves_exec
  obtain ⟨a, hmem, ha⟩ := List.any_eq_true.mp hany
  obtain ⟨b, rfl, hb⟩ := (Option.any_eq_true _ _).mp ha
  have hspawned : ∃ cfg, b = .supervisor (.spawned cfg) := by
    unfold Label.spawns at hb
    split at hb
    · exact ⟨_, rfl⟩
    · cases hb
  obtain ⟨cfg, rfl⟩ := hspawned
  obtain ⟨ys, zs, rfl⟩ := List.append_of_mem hmem
  have htrace : Lts.Trace (Step exampleSystem) (.parse exampleArgs) _ s := Lts.exec_trace hr
  obtain ⟨hv, o, path, cfg₀, hplaced, -⟩ := (launched htrace).2.2 ys cfg zs rfl
  exact ⟨_, s, htrace, ys, cfg, zs, rfl, hv, o, path, cfg₀, hplaced⟩

end Startup
end Ubgp
