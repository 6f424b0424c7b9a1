import DimOS.Process.Machine
import DimOS.Concurrency.Primitives

/-! Any number of threads on one MutexLock. A thread releases only a mutex it holds;
it may exit with or without holding it. Steps are the guarded sections, park and the
scheduler's choice, with preemption between any two steps of a thread that is not
DO_NOT_DISTURB. -/
namespace DimOS.Concurrency.MutexRuns
open Process
open Lib.Transition (run Visits Guarded)

inductive Pc where
  | outside
  | acquiring
  | parking
  | yielding
  | holding
  | releasing
  | panicked
  | exited (holds : Bool)
  deriving DecidableEq, Repr

/- acquireLock has returned and the section of releaseLock has not run. -/
def Pc.holds : Pc → Bool
  | .holding | .releasing => true
  | .exited h => h
  | _ => false

inductive Label where
  | acquireLock
  | releaseLock
  | exit
  | advance
  | yieldTo (next : Nat)
  deriving DecidableEq, Repr

abbrev State := Machine Pc MutexLock

def whole : View MutexLock MutexLock := ⟨fun lk => lk, fun _ lk => lk⟩

def exec (m : State) (id : Nat) (label : Label) : Option State :=
  match m.pc id, label with
  | .outside, .acquireLock => some (m.goto id .acquiring)
  | .holding, .releaseLock => some (m.goto id .releasing)
  | .outside, .exit => some ((m.goto id (.exited false)).withState id .completed)
  | .holding, .exit => some ((m.goto id (.exited true)).withState id .completed)
  | .acquiring, .advance => some (acquireStep whole m id .holding .parking)
  | .parking, .advance => some ((m.goto id .yielding).withState id .sleeping)
  | .releasing, .advance => some (releaseStep whole m id .outside .panicked)
  | .yielding, .yieldTo next => (m.goto id .acquiring).schedule next
  | .exited _, .yieldTo next => m.schedule next
  | _, _ => none

def program : Program Pc MutexLock Label := ⟨.outside, exec⟩

inductive Effect (m out : State) (id : Nat) (label : Label) : Prop where
  | quiet (next : Pc) (pc : out.pc = Function.update m.pc id next) (mem : out.mem = m.mem)
      (same : next.holds = (m.pc id).holds)
  | taken (clear : m.mem.flag = 0) (pc : out.pc = Function.update m.pc id .holding)
      (mem : out.mem = { m.mem with flag := 1 })
  | queued (set : m.mem.flag ≠ 0) (pc : out.pc = Function.update m.pc id .parking)
      (was : m.pc id = .acquiring) (mem : out.mem = { m.mem with queue := m.mem.queue ++ [id] })
  | freed (was : m.pc id = .releasing) (empty : m.mem.queue = [])
      (pc : out.pc = Function.update m.pc id .outside) (mem : out.mem = { m.mem with flag := 0 })
  | handed (was : m.pc id = .releasing) (advanced : label = .advance) (free : m.mem.lock = 0)
      (waiting : m.mem.queue ≠ []) (next : Pc) (pc : out.pc = Function.update m.pc id next)
      (dropped : next.holds = false) (flag : out.mem.flag = m.mem.flag)

theorem acquireEffect (m : State) (id : Nat) (label : Label) (was : m.pc id = .acquiring) :
    Effect m (acquireStep whole m id .holding .parking) id label := by
  rcases acquireStepCases whole m id .holding .parking with stay | ⟨clear, moves, mem⟩ |
    ⟨set, moves, mem⟩
  · rw [stay]
    exact .quiet (m.pc id) (movesStay m id).pc rfl rfl
  · exact .taken clear moves.pc mem
  · exact .queued set moves.pc was mem

theorem releaseEffect (m : State) (id : Nat) (was : m.pc id = .releasing) :
    Effect m (releaseStep whole m id .outside .panicked) id .advance := by
  rcases releaseStepCases whole m id .outside .panicked with ⟨-, stay⟩ | ⟨-, empty, moves, mem⟩ |
    ⟨free, waiting, next, lk, place, moves, flag, mem⟩
  · rw [stay]
    exact .quiet (m.pc id) (movesStay m id).pc rfl rfl
  · exact .freed was empty moves.pc mem
  · refine .handed was rfl free waiting next moves.pc ?_ (by rw [mem]; exact flag)
    rcases place with rfl | rfl <;> rfl

theorem execEffect {m out : State} {id : Nat} {label : Label}
    (ok : exec m id label = some out) : Effect m out id label := by
  unfold exec at ok
  split at ok <;> try contradiction
  case h_1 was => cases Option.some.inj ok; exact .quiet .acquiring rfl rfl (by rw [was]; rfl)
  case h_2 was => cases Option.some.inj ok; exact .quiet .releasing rfl rfl (by rw [was]; rfl)
  case h_3 was => cases Option.some.inj ok; exact .quiet (.exited false) rfl rfl (by rw [was]; rfl)
  case h_4 was => cases Option.some.inj ok; exact .quiet (.exited true) rfl rfl (by rw [was]; rfl)
  case h_5 was => cases Option.some.inj ok; exact acquireEffect m id .advance was
  case h_6 was => cases Option.some.inj ok; exact .quiet .yielding rfl rfl (by rw [was]; rfl)
  case h_7 was => cases Option.some.inj ok; exact releaseEffect m id was
  case h_8 was =>
    obtain ⟨pcs, mems⟩ := Machine.scheduleFrame ok
    exact .quiet .acquiring pcs mems (by rw [was]; rfl)
  case h_9 h next was =>
    obtain ⟨pcs, mems⟩ := Machine.scheduleFrame ok
    exact .quiet (.exited h) (by rw [pcs, ← was, Function.update_eq_self]) mems (by rw [was])

theorem holdsUpdate (pc : Nat → Pc) (id a : Nat) (next : Pc) :
    (Function.update pc id next a).holds = if a = id then next.holds else (pc a).holds := by
  by_cases same : a = id
  · subst a; simp
  · simp [same]

structure Exclusive (pc : Nat → Pc) (lk : MutexLock) : Prop where
  unique : ∀ a b, (pc a).holds = true → (pc b).holds = true → a = b
  flagged : ∀ a, (pc a).holds = true → lk.flag = 1

theorem Exclusive.idle {pc : Nat → Pc} {lk : MutexLock} (h : Exclusive pc lk) (clear : lk.flag = 0)
    (a : Nat) : (pc a).holds = false := by
  by_contra held
  have set := h.flagged a (by simpa using held)
  omega

theorem Exclusive.dropped {pc : Nat → Pc} {lk : MutexLock} (h : Exclusive pc lk) {id : Nat}
    (was : (pc id).holds = true) {next : Pc} (dropped : next.holds = false) (a : Nat) :
    (Function.update pc id next a).holds = false := by
  rw [holdsUpdate]
  by_cases same : a = id
  · simpa [same] using dropped
  · rw [if_neg same]
    by_contra held
    exact same (h.unique a id (by simpa using held) was)

theorem effectExclusive {m out : State} {id : Nat} {label : Label}
    (h : Exclusive m.pc m.mem) (effect : Effect m out id label) : Exclusive out.pc out.mem := by
  cases effect with
  | quiet next pc mem same =>
    have holders (a : Nat) : (out.pc a).holds = (m.pc a).holds := by
      rw [pc, holdsUpdate]; split
      · subst a; exact same
      · rfl
    exact ⟨fun a b ha hb => h.unique a b (holders a ▸ ha) (holders b ▸ hb),
      fun a ha => by rw [mem]; exact h.flagged a (holders a ▸ ha)⟩
  | taken clear pc mem =>
    have only (a : Nat) (ha : (out.pc a).holds = true) : a = id := by
      by_contra other
      rw [pc, holdsUpdate, if_neg other, h.idle clear a] at ha
      exact Bool.noConfusion ha
    exact ⟨fun a b ha hb => (only a ha).trans (only b hb).symm, fun a _ => by rw [mem]⟩
  | queued set pc was mem =>
    have holders (a : Nat) : (out.pc a).holds = (m.pc a).holds := by
      rw [pc, holdsUpdate]; split
      · subst a; rw [was]; rfl
      · rfl
    exact ⟨fun a b ha hb => h.unique a b (holders a ▸ ha) (holders b ▸ hb),
      fun a ha => by rw [mem]; exact h.flagged a (holders a ▸ ha)⟩
  | freed was empty pc mem =>
    have nobody := h.dropped (by rw [was]; rfl) (show Pc.outside.holds = false from rfl)
    rw [← pc] at nobody
    exact ⟨fun a b ha _ => by simp [nobody a] at ha, fun a ha => by simp [nobody a] at ha⟩
  | handed was _ _ _ next pc dropped _ =>
    have nobody := h.dropped (by rw [was]; rfl) dropped
    rw [← pc] at nobody
    exact ⟨fun a b ha _ => by simp [nobody a] at ha, fun a ha => by simp [nobody a] at ha⟩

theorem bootedExclusive {m : State} (h : Booted program .default m) : Exclusive m.pc m.mem := by
  have nobody (a : Nat) : (m.pc a).holds = false := by rw [h.pc]; rfl
  exact ⟨fun a b ha _ => by simp [nobody a] at ha, fun a ha => by simp [nobody a] at ha⟩

theorem stepExclusive (m : State) (e : Event Label) (out : State) (h : Exclusive m.pc m.mem)
    (ok : step program m e = some out) : Exclusive out.pc out.mem :=
  sharedInvariant program Exclusive
    (fun _ _ _ _ before ran => effectExclusive before (execEffect ran)) h ok

theorem runExclusive {m out : State} {es : List (Event Label)} (booted : Booted program .default m)
    (ok : run (step program) m es = some out) : Exclusive out.pc out.mem :=
  Lib.Transition.invariantRunAll (fun s : State => Exclusive s.pc s.mem)
    stepExclusive (bootedExclusive booted) ok

theorem mutualExclusion {m out : State} {es : List (Event Label)}
    (booted : Booted program .default m) (ok : run (step program) m es = some out)
    (a b : Nat) (ha : (out.pc a).holds = true) (hb : (out.pc b).holds = true) : a = b :=
  (runExclusive booted ok).unique a b ha hb

def pair : State :=
  { kthreads := [⟨1, .running⟩, ⟨2, .notStarted⟩], currKThreadIdx := 0, currId := 3,
    pc := fun _ => .outside, mem := .default }

theorem pairBooted : Booted program .default pair :=
  ⟨rfl, rfl, by simp [pair], by simp [pair], by simp [pair, isRunnableState]⟩

/- The first thread takes the mutex; round robin switches to the second, which queues
itself and parks; back on the CPU, the first thread releases. -/
def contendedRelease : List (Event Label) :=
  [.exec .acquireLock, .exec .advance, .interrupt 1, .exec .acquireLock, .exec .advance,
   .exec .advance, .exec (.yieldTo 0), .exec .releaseLock, .exec .advance]

theorem mutualExclusionPair : ∃ out, run (step program) pair (contendedRelease.take 6) = some out ∧
    (out.pc 1).holds = true ∧ ∀ b, (out.pc b).holds = true → b = 1 := by
  refine ⟨_, rfl, rfl, ?_⟩
  intro b hb
  exact mutualExclusion pairBooted
    (show run (step program) pair (contendedRelease.take 6) = some _ from rfl) b 1 hb rfl

/- A waiter inside acquireLock whose next section would find flag clear. -/
def ReturnsNext (m : State) (id : Nat) : Prop :=
  (m.pc id = .acquiring ∨ m.pc id = .yielding) ∧ ∃ lk, m.mem.acquireSection id = some (.taken, lk)

def NoOrphan (m : State) : Prop :=
  m.mem.flag = 1 → (∃ id, (m.pc id).holds = true) ∨ ∃ id, ReturnsNext m id

def EmptyRelease (m : State) (e : Event Label) : Prop :=
  ∀ t, e = .exec .advance → m.thisThread = some t → m.pc t.id = .releasing → m.mem.lock = 0 →
    m.mem.queue = []

instance (m : State) (e : Event Label) : Decidable (EmptyRelease m e) :=
  match this : m.thisThread with
  | none => isTrue (fun t _ found => by simp [this] at found)
  | some t => decidable_of_iff (e = .exec .advance → m.pc t.id = .releasing → m.mem.lock = 0 →
      m.mem.queue = []) (by simp [EmptyRelease, this])

structure Owned (m : State) : Prop where
  exclusive : Exclusive m.pc m.mem
  held : m.mem.flag = 1 → ∃ id, (m.pc id).holds = true

theorem effectOwned {m out : State} {id : Nat} {label : Label} (h : Owned m)
    (empty : label = .advance → m.pc id = .releasing → m.mem.lock = 0 → m.mem.queue = [])
    (effect : Effect m out id label) : Owned out := by
  refine ⟨effectExclusive h.exclusive effect, ?_⟩
  intro set
  cases effect with
  | quiet next pc mem same =>
    obtain ⟨a, ha⟩ := h.held (by rw [← mem]; exact set)
    refine ⟨a, ?_⟩
    rw [pc, holdsUpdate]; split
    · subst a; rw [same]; exact ha
    · exact ha
  | taken clear pc mem => exact ⟨id, by rw [pc, holdsUpdate, if_pos rfl]; rfl⟩
  | queued _ pc was mem =>
    obtain ⟨a, ha⟩ := h.held (by rw [mem] at set; exact set)
    refine ⟨a, ?_⟩
    rw [pc, holdsUpdate, if_neg]
    · exact ha
    · rintro rfl; rw [was] at ha; exact Bool.noConfusion ha
  | freed was empty pc mem => rw [mem] at set; exact absurd set (by simp)
  | handed was advanced free waiting => exact absurd (empty advanced was free) waiting

theorem stepOwned (m : State) (e : Event Label) (out : State) (h : Owned m)
    (empty : EmptyRelease m e) (ok : step program m e = some out) : Owned out := by
  rcases stepCases ok with ⟨label, t, rfl, this, ran⟩ | ⟨-, pcs, mems⟩
  · refine effectOwned h ?_ (execEffect ran)
    rintro rfl
    exact empty t rfl this
  · exact ⟨by rw [pcs, mems]; exact h.exclusive, by rw [pcs, mems]; exact h.held⟩

theorem bootedOwned {m : State} (h : Booted program .default m) : Owned m :=
  ⟨bootedExclusive h, by rw [h.mem]; intro set; exact absurd set (by simp [MutexLock.default])⟩

theorem handedOrphans {m out : State} {e : Event Label} (h : Exclusive m.pc m.mem)
    (ok : step program m e = some out) (nonempty : ¬ EmptyRelease m e) : ¬ NoOrphan out := by
  simp only [EmptyRelease, not_forall] at nonempty
  obtain ⟨t, rfl, this, releasing, free, waiting⟩ := nonempty
  have ran : releaseStep whole m t.id .outside .panicked = out := by
    simpa [step, this, program, exec, releasing] using ok
  have wasHolder : (m.pc t.id).holds = true := by rw [releasing]; rfl
  rcases releaseStepCases whole m t.id .outside .panicked with ⟨taken, -⟩ | ⟨-, empty, -⟩ |
    ⟨-, -, next, lk, place, moves, flag, mem⟩
  · exact absurd free taken
  · exact absurd empty waiting
  rw [ran] at moves mem
  intro fine
  have set : out.mem.flag = 1 := by
    rw [mem]
    exact flag.trans (h.flagged _ wasHolder)
  have dropped : next.holds = false := by rcases place with rfl | rfl <;> rfl
  have nobody := h.dropped wasHolder dropped
  rw [← moves.pc] at nobody
  rcases fine set with ⟨a, ha⟩ | ⟨a, -, took⟩
  · simp [nobody a] at ha
  · have clear := (acquireTakenIff.mp took).2
    omega

/-- A run keeps every set mutex owned exactly when each of its releases finds the
queue empty: acquireLock tests flag again after a wake-up, while releaseLock leaves
flag set for the waiter it wakes. -/
theorem orphanFreeIff {m out : State} {es : List (Event Label)}
    (booted : Booted program .default m) (ok : run (step program) m es = some out) :
    (∀ mid, Visits (step program) m es mid → NoOrphan mid) ↔
      Guarded (step program) EmptyRelease m es := by
  constructor
  · intro fine pre e post mid shape reached
    by_contra nonempty
    -- the release itself was accepted, so the run visits the state after it
    rw [shape, Lib.Transition.runAppend, reached, Option.bind_some] at ok
    obtain ⟨after, taken, -⟩ := Option.bind_eq_some_iff.mp ok
    refine handedOrphans (runExclusive booted reached) taken nonempty (fine after ?_)
    refine ⟨pre ++ [e], post, by rw [shape]; simp, ?_⟩
    rw [Lib.Transition.runAppend, reached, Option.bind_some, Lib.Transition.runSingle, taken]
  · intro guarded mid visited set
    have owned : Owned mid :=
      Lib.Transition.invariantVisits Owned stepOwned (bootedOwned booted) guarded visited
    exact .inl (owned.held set)

theorem contendedReleaseOrphans : Booted program .default pair ∧
    ∃ out, run (step program) pair contendedRelease = some out ∧ out.mem.flag = 1 ∧
      ¬ NoOrphan out := by
  refine ⟨pairBooted, _, rfl, rfl, ?_⟩
  refine handedOrphans (e := .exec .advance)
    (runExclusive pairBooted
      (show run (step program) pair (contendedRelease.take 8) = some _ from rfl)) rfl ?_
  intro empty
  exact absurd (empty ⟨1, .running⟩ rfl rfl rfl rfl) (by decide)

/- The second thread overtakes the first in acquireLock and is done before that goes on. -/
def racedRelease : List (Event Label) :=
  [.exec .acquireLock, .interrupt 1, .exec .acquireLock, .exec .advance, .exec .releaseLock, .exec .advance,
   .interrupt 0, .exec .advance, .exec .releaseLock, .exec .advance]

theorem orphanFreePair : ∃ out, run (step program) pair racedRelease = some out ∧
    out.mem.flag = 0 ∧ ∀ mid, Visits (step program) pair racedRelease mid → NoOrphan mid := by
  refine ⟨_, rfl, rfl, ?_⟩
  exact (orphanFreeIff pairBooted (show run (step program) pair racedRelease = some _ from rfl)).mpr
    (Lib.Transition.checkedGuarded (by decide))

end DimOS.Concurrency.MutexRuns
