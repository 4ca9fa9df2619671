import SolidityBuild.Project.Session

/-!
Sessions over whole runs. Networks are selected, configurations taken over and
builds attempted in any order, whether they succeed or not. At every moment the
signer is the wallet of the network in use, that network is one of the current
configuration, and the build that is remembered is the one of the last attempt.
-/

namespace SolidityBuild.Project.Session

open Compiler (Backend)

variable {s after : Session} {c : Config} {name : String} {n m : Network}

/-- What is done with a session. A build gets a compiler and finds a file tree,
which may have changed in any way since the last one. -/
inductive Operation where
  | select (name : String)
  | reload (c : Config)
  | build (backend : Backend) (noEmit : Bool) (t : FileTree)

inductive Answer where
  | done
  | refused (e : SessionError)
  | built (outcome : Except BuildError Build)

/-- The outcome of a build, if there was one. -/
def Answer.outcome? : Answer → Option (Except BuildError Build)
  | done => none
  | refused _ => none
  | built outcome => some outcome

/-- Do one operation. -/
def perform (s : Session) : Operation → Session × Answer
  | .select name =>
    match s.select name with
    | .ok after => (after, .done)
    | .error e => (s, .refused e)
  | .reload c => (s.reload c, .done)
  | .build backend noEmit t =>
    let (after, run) := s.build backend noEmit t
    (after, .built run.outcome)

/-- Do some operations in turn. -/
def performAll (s : Session) : List Operation → Session × List Answer
  | [] => (s, [])
  | operation :: operations =>
    let (s, answer) := s.perform operation
    let (s, answers) := s.performAll operations
    (s, answer :: answers)

/-- The outcomes of the builds that were attempted, in order. -/
def attempts (answers : List Answer) : List (Except BuildError Build) :=
  answers.filterMap Answer.outcome?

/-- The configuration that is current after an operation. -/
def Operation.configAfter (c : Config) : Operation → Config
  | select _ => c
  | reload c' => c'
  | build _ _ _ => c

/-- The configuration that is current after some operations. -/
def currentConfig (c : Config) (operations : List Operation) : Config :=
  operations.foldl Operation.configAfter c

/-! ## Networks in use -/

@[simp] theorem config_useNetwork (s : Session) (network : Option Network) :
    (s.useNetwork network).config = s.config := rfl

@[simp] theorem lastBuild_useNetwork (s : Session) (network : Option Network) :
    (s.useNetwork network).lastBuild = s.lastBuild := rfl

@[simp] theorem network_useNetwork (s : Session) (network : Option Network) :
    (s.useNetwork network).network = network := rfl

theorem toOption_network (c : Config) (name : String) :
    (c.network name).toOption = c.networks.find? (·.name = name) := by
  unfold Config.network
  cases c.networks.find? (·.name = name) <;> rfl

theorem network_reload (s : Session) (c : Config) :
    (s.reload c).network =
      (s.network.bind fun n => c.networks.find? (·.name = n.name)).or c.networks.head? := by
  simp only [reload, network_useNetwork, toOption_network, Config.defaultNetwork?,
    Option.orElse_eq_orElse, Option.orElse_eq_or]

/-- A network is selected if it is the first one with the name. -/
theorem select_eq_ok_iff :
    s.select name = .ok after ↔
      ∃ n, s.config.networks.find? (·.name = name) = some n ∧ after = s.useNetwork (some n) := by
  rw [select, Config.network]
  cases s.config.networks.find? (·.name = name) <;> simp [eq_comm]

theorem select_eq_error_iff {e : SessionError} :
    s.select name = .error e ↔
      s.config.networks.find? (·.name = name) = none ∧ e = .config (.missingNetwork name) := by
  rw [select, Config.network]
  cases s.config.networks.find? (·.name = name) <;> simp [eq_comm]

/-! ## The parts of a session -/

/-- The signer and the network in use fit the configuration. -/
structure Consistent (s : Session) : Prop where
  signer : s.signer = s.network.bind (·.wallet)
  listed : ∀ n, s.network = some n → n ∈ s.config.networks
  idle : s.network = none ↔ s.config.networks = []

theorem consistent_useNetwork {network : Option Network}
    (hlisted : ∀ n, network = some n → n ∈ s.config.networks)
    (hidle : network = none ↔ s.config.networks = []) : (s.useNetwork network).Consistent :=
  ⟨rfl, hlisted, hidle⟩

theorem consistent_start (c : Config) : (start c).Consistent :=
  consistent_useNetwork (fun _ h => List.mem_of_mem_head? h) List.head?_eq_none_iff

theorem consistent_reload (s : Session) (c : Config) : (s.reload c).Consistent := by
  have hkept : ∀ m, (s.network.bind fun n => c.networks.find? (·.name = n.name)) = some m →
      m ∈ c.networks := by
    intro m hm
    obtain ⟨n, -, hfind⟩ := Option.bind_eq_some_iff.1 hm
    exact List.mem_of_find?_eq_some hfind
  refine ⟨rfl, fun n hn => ?_, ?_⟩
  · rw [network_reload, Option.or_eq_some_iff] at hn
    rcases hn with hn | ⟨-, hn⟩
    · exact hkept n hn
    · exact List.mem_of_mem_head? hn
  · rw [network_reload, Option.or_eq_none_iff, List.head?_eq_none_iff]
    refine ⟨And.right, fun hempty => ⟨?_, hempty⟩⟩
    refine Option.eq_none_iff_forall_ne_some.2 fun m hm => ?_
    have hmem := hkept m hm
    rw [show c.networks = [] from hempty] at hmem
    cases hmem

theorem Consistent.select (h : s.select name = .ok after) : after.Consistent := by
  obtain ⟨n, hfind, rfl⟩ := select_eq_ok_iff.1 h
  have hmem := List.mem_of_find?_eq_some hfind
  refine consistent_useNetwork (fun m hm => ?_) ?_
  · rwa [← Option.some.inj hm]
  · simp [List.ne_nil_of_mem hmem]

theorem Consistent.perform (h : s.Consistent) (operation : Operation) :
    (s.perform operation).1.Consistent := by
  cases operation with
  | select name =>
      rw [Session.perform]
      cases hselect : s.select name with
      | ok after => exact Consistent.select hselect
      | error e => exact h
  | reload c => exact consistent_reload s c
  | build backend noEmit t =>
      simp only [Session.perform, Session.build]
      exact ⟨h.signer, h.listed, h.idle⟩

theorem Consistent.performAll (h : s.Consistent) (operations : List Operation) :
    (s.performAll operations).1.Consistent := by
  induction operations generalizing s with
  | nil => exact h
  | cons operation operations ih => exact ih (h.perform operation)

/-! ## The configuration and the last build -/

theorem config_perform (s : Session) (operation : Operation) :
    (s.perform operation).1.config = operation.configAfter s.config := by
  cases operation with
  | select name =>
      rw [perform]
      cases hselect : s.select name with
      | ok after =>
          obtain ⟨n, -, rfl⟩ := select_eq_ok_iff.1 hselect
          rfl
      | error e => rfl
  | reload c => rfl
  | build backend noEmit t => simp only [perform, build, Operation.configAfter]

theorem config_performAll (s : Session) (operations : List Operation) :
    (s.performAll operations).1.config = currentConfig s.config operations := by
  induction operations generalizing s with
  | nil => rfl
  | cons operation operations ih =>
      rw [performAll, ih, config_perform, currentConfig, currentConfig, List.foldl_cons]

/-- A build is remembered if the operation has made it, or if it was remembered
and the operation was no build. -/
theorem lastBuild_perform (s : Session) (operation : Operation) {b : Build} :
    (s.perform operation).1.lastBuild = some b ↔
      (s.perform operation).2.outcome? = some (.ok b) ∨
        (s.perform operation).2.outcome? = none ∧ s.lastBuild = some b := by
  cases operation with
  | select name =>
      rw [perform]
      cases hselect : s.select name with
      | ok after =>
          obtain ⟨n, -, rfl⟩ := select_eq_ok_iff.1 hselect
          simp [Answer.outcome?]
      | error e => simp [Answer.outcome?]
  | reload c => simp [perform, reload, Answer.outcome?]
  | build backend noEmit t =>
      simp only [perform, build, Answer.outcome?]
      cases (Project.build s.config backend noEmit t).outcome <;> simp [Except.toOption]

theorem lastBuild_performAll (s : Session) (operations : List Operation) {b : Build} :
    (s.performAll operations).1.lastBuild = some b ↔
      (attempts (s.performAll operations).2).getLast? = some (.ok b) ∨
        attempts (s.performAll operations).2 = [] ∧ s.lastBuild = some b := by
  induction operations generalizing s with
  | nil => simp [performAll, attempts]
  | cons operation operations ih =>
      rw [performAll, ih, lastBuild_perform]
      simp only [attempts, List.filterMap_cons]
      generalize List.filterMap Answer.outcome?
        ((s.perform operation).1.performAll operations).2 = later
      cases (s.perform operation).2.outcome? with
      | none => simp
      | some outcome => cases later <;> simp

/-! ## Taking over a configuration -/

/-- The network in use goes on under its name if there still is one of that
name, and is the first one otherwise. -/
structure TakesOver (s : Session) (c : Config) : Prop where
  kept : ∀ n, s.network = some n → (∃ m ∈ c.networks, m.name = n.name) →
    ∃ m, (s.reload c).network = some m ∧ m.name = n.name
  first : (∀ n, s.network = some n → ∀ m ∈ c.networks, m.name ≠ n.name) →
    (s.reload c).network = c.networks.head?

theorem takesOver (s : Session) (c : Config) : s.TakesOver c := by
  refine ⟨fun n hn hstill => ?_, fun hgone => ?_⟩
  · obtain ⟨m, hm⟩ : ∃ m, c.networks.find? (·.name = n.name) = some m :=
      Option.isSome_iff_exists.1 (List.find?_isSome.2 (by simpa using hstill))
    refine ⟨m, ?_, by simpa using List.find?_some hm⟩
    rw [network_reload, hn, Option.bind_some, hm, Option.some_or]
  · rw [network_reload]
    cases hn : s.network with
    | none => rfl
    | some n =>
        have hfind : c.networks.find? (·.name = n.name) = none :=
          List.find?_eq_none.2 (by simpa using hgone n hn)
        rw [Option.bind_some, hfind, Option.none_or]

theorem eq_of_refused {e : SessionError}
    (h : s.perform (.select name) = (after, .refused e)) :
    after = s ∧ ∀ n ∈ s.config.networks, n.name ≠ name := by
  rw [perform] at h
  cases hselect : s.select name with
  | ok chosen =>
      rw [hselect] at h
      cases h
  | error e' =>
      rw [hselect] at h
      obtain ⟨hfind, -⟩ := select_eq_error_iff.1 hselect
      exact ⟨(Prod.mk.inj h).1.symm, by simpa using List.find?_eq_none.1 hfind⟩

/-- Whatever is done with a session, its parts fit the configuration that was
taken over last, and it remembers the build of the last attempt if that has
succeeded. -/
theorem consistent_after (c : Config) (operations : List Operation) :
    ∃ s answers, (start c).performAll operations = (s, answers) ∧ s.Consistent ∧
      s.config = currentConfig c operations ∧
      (∀ b, s.lastBuild = some b ↔ (attempts answers).getLast? = some (.ok b)) ∧
      (∀ next, s.TakesOver next) ∧
      ∀ name after e, s.perform (.select name) = (after, .refused e) →
        after = s ∧ ∀ n ∈ s.config.networks, n.name ≠ name := by
  refine ⟨_, _, rfl, (consistent_start c).performAll operations,
    config_performAll (start c) operations, fun b => ?_, takesOver _,
    fun name after e h => eq_of_refused h⟩
  rw [lastBuild_performAll]
  exact ⟨fun h => h.resolve_right (by simp [start]), .inl⟩

end SolidityBuild.Project.Session
