/- GID: MotifChess/Db/BundleLock
   generality: implementation
   digest: The advisory lock of a bundle directory under processes that create, open and close it. -/

import MotifChess.System.Run
import Mathlib.Data.Nat.Notation

/-! A lock belongs to a process and an inode, and a process loses it with the first descriptor of the
inode that it closes.  A handle is one `create` or `open` call and the manager it returns; an action
is one system call on the lock file, or a stretch of the call that makes none.  What `open` finds in
the directory before it opens the lock file may be gone by then, so that it restrains no step. -/

set_option autoImplicit false
set_option relaxedAutoImplicit false

namespace MotifChess.Db.BundleLock

section Model

inductive Operation
  | openBundle
  | createBundle
  deriving DecidableEq

/-- Where a call stands: `descriptor` has not tried the lock yet, `locked` holds it, `initializing`
has made the database, `managing` has returned its manager.  `closed` has closed the manager of a
bundle that it created, `cleaning` has closed its descriptor and still has to remove the files,
`cleaned` the other way round. -/
inductive Phase
  | descriptor (operation : Operation)
  | locked (operation : Operation)
  | initializing
  | managing (created : Bool)
  | closed
  | cleaning
  | cleaned
  deriving DecidableEq

structure Handle where
  process : ℕ
  inode : ℕ
  phase : Phase
  deriving DecidableEq

/-- The database and the lock file of the directory, the owner of each inode's lock, and the handles
of all processes. -/
structure World where
  database : Bool
  lockFile : Option ℕ
  nextInode : ℕ
  owner : ℕ → Option ℕ
  handles : ℕ → Option Handle

inductive Action
  | openLockFile (operation : Operation) (process id : ℕ)
  | setLock (id : ℕ) (granted : Bool)
  | makeDatabase (id : ℕ)
  | succeed (id : ℕ)
  | fail (id : ℕ)
  | failCreated (id : ℕ)
  | cleanUp (id : ℕ)
  | leave (id : ℕ)
  | close (id : ℕ)
  | discardCreatedBundle (id : ℕ)
  | exit (process : ℕ)
  deriving DecidableEq

namespace World

def init (database : Bool) : World := ⟨database, none, 0, fun _ => none, fun _ => none⟩

def setHandle (w : World) (id : ℕ) (h : Option Handle) : World :=
  { w with handles := fun i => if i = id then h else w.handles i }

/-- Unlocking and closing the descriptor of a handle. -/
def release (w : World) (h : Handle) : World :=
  { w with owner := fun inode =>
      if inode = h.inode ∧ w.owner inode = some h.process then none else w.owner inode }

/-- `O_CREAT`: open the file that the name stands for, or make a new one. -/
def openLockFile (w : World) (operation : Operation) (process id : ℕ) : World :=
  match w.lockFile with
  | some inode => w.setHandle id (some ⟨process, inode, .descriptor operation⟩)
  | none => { w with lockFile := some w.nextInode, nextInode := w.nextInode + 1 }.setHandle id
      (some ⟨process, w.nextInode, .descriptor operation⟩)

/-- `F_SETLK` succeeds only when no other process owns the lock. -/
def setLock (w : World) (id : ℕ) (granted : Bool) : Option World :=
  match w.handles id with
  | some ⟨process, inode, .descriptor operation⟩ =>
    if granted then
      if w.owner inode = none ∨ w.owner inode = some process then
        some ({ w with owner := fun i => if i = inode then some process else w.owner i }.setHandle id
          (some ⟨process, inode, .locked operation⟩))
      else none
    else some ((w.release ⟨process, inode, .descriptor operation⟩).setHandle id none)
  | _ => none

/-- `create` refuses a directory that has a database, and makes one otherwise. -/
def makeDatabase (w : World) (id : ℕ) : Option World :=
  match w.handles id with
  | some ⟨process, inode, .locked .createBundle⟩ =>
    if w.database then none
    else some ({ w with database := true }.setHandle id (some ⟨process, inode, .initializing⟩))
  | _ => none

/-- The call returns its manager. -/
def succeed (w : World) (id : ℕ) : Option World :=
  match w.handles id with
  | some ⟨process, inode, .locked .openBundle⟩ =>
    some (w.setHandle id (some ⟨process, inode, .managing false⟩))
  | some ⟨process, inode, .initializing⟩ =>
    some (w.setHandle id (some ⟨process, inode, .managing true⟩))
  | _ => none

/-- The call fails before it has made a database: it only gives up its lock. -/
def fail (w : World) (id : ℕ) : Option World :=
  match w.handles id with
  | some ⟨process, inode, .locked operation⟩ =>
    some ((w.release ⟨process, inode, .locked operation⟩).setHandle id none)
  | _ => none

/-- `create` fails with a manager in hand, closes it, and removes its files afterwards. -/
def failCreated (w : World) (id : ℕ) : Option World :=
  match w.handles id with
  | some ⟨process, inode, .initializing⟩ =>
    some ((w.release ⟨process, inode, .initializing⟩).setHandle id
      (some ⟨process, inode, .cleaning⟩))
  | _ => none

/-- `cleanup_failed_create`: with the lock still held when the schema or the manifest failed. -/
def cleanUp (w : World) (id : ℕ) : Option World :=
  match w.handles id with
  | some ⟨process, inode, .initializing⟩ =>
    some ({ w with database := false, lockFile := none }.setHandle id
      (some ⟨process, inode, .cleaned⟩))
  | some ⟨_, _, .cleaning⟩ =>
    some ({ w with database := false, lockFile := none }.setHandle id none)
  | _ => none

/-- The lock object is destroyed after its file was removed. -/
def leave (w : World) (id : ℕ) : Option World :=
  match w.handles id with
  | some ⟨process, inode, .cleaned⟩ =>
    some ((w.release ⟨process, inode, .cleaned⟩).setHandle id none)
  | _ => none

def close (w : World) (id : ℕ) : Option World :=
  match w.handles id with
  | some ⟨process, inode, .managing created⟩ =>
    some ((w.release ⟨process, inode, .managing created⟩).setHandle id
      (if created then some ⟨process, inode, .closed⟩ else none))
  | _ => none

/-- Close the manager unless it is closed; the files of a bundle that this manager created are removed
afterwards. -/
def discardCreatedBundle (w : World) (id : ℕ) : Option World :=
  match w.handles id with
  | some ⟨process, inode, .managing created⟩ =>
    some ((w.release ⟨process, inode, .managing created⟩).setHandle id
      (if created then some ⟨process, inode, .cleaning⟩ else none))
  | some ⟨process, inode, .closed⟩ => some (w.setHandle id (some ⟨process, inode, .cleaning⟩))
  | _ => none

/-- The end of a process closes all its descriptors. -/
def exit (w : World) (process : ℕ) : World :=
  { w with
    owner := fun inode => if w.owner inode = some process then none else w.owner inode
    handles := fun id => (w.handles id).filter fun h => decide (h.process ≠ process) }

def step (w : World) : Action → Option World
  | .openLockFile operation process id =>
    if w.handles id = none then some (w.openLockFile operation process id) else none
  | .setLock id granted => w.setLock id granted
  | .makeDatabase id => w.makeDatabase id
  | .succeed id => w.succeed id
  | .fail id => w.fail id
  | .failCreated id => w.failCreated id
  | .cleanUp id => w.cleanUp id
  | .leave id => w.leave id
  | .close id => w.close id
  | .discardCreatedBundle id => w.discardCreatedBundle id
  | .exit process => some (w.exit process)

end World

end Model

section Exclusion

/-- Between the granted lock and the closing of the descriptor. -/
def Phase.Holds : Phase → Prop
  | .locked _ | .initializing | .managing _ => True
  | .descriptor _ | .closed | .cleaning | .cleaned => False

/-- With a descriptor of the file that the name stood for when it was opened. -/
def Phase.Attached : Phase → Prop
  | .descriptor _ | .locked _ | .initializing | .managing _ => True
  | .closed | .cleaning | .cleaned => False

theorem Phase.Holds.attached {phase : Phase} (h : phase.Holds) : phase.Attached := by
  cases phase <;> first | exact trivial | exact h.elim

def Managing (h : Handle) : Prop := ∃ created, h.phase = .managing created

/-- Two managers that are open at the same time belong to the same process. -/
def Exclusive (w : World) : Prop :=
  ∀ i j h h', w.handles i = some h → w.handles j = some h' → Managing h → Managing h' →
    h.process = h'.process

/-- A process with an open manager owns the lock on the lock file of the directory. -/
def OwnsLock (w : World) : Prop :=
  ∀ i h, w.handles i = some h → Managing h →
    ∃ inode, w.lockFile = some inode ∧ w.owner inode = some h.process

/-- No other handle of the process holds the lock whose descriptor this handle closes. -/
def LastHolder (w : World) (id : ℕ) : Prop :=
  ∀ h, w.handles id = some h → h.phase ≠ .closed → ∀ j h', w.handles j = some h' → j ≠ id →
    h'.phase.Holds → h'.process = h.process → h'.inode ≠ h.inode

/-- No other handle has a descriptor of the lock file that is about to be removed. -/
def LastAttached (w : World) (id : ℕ) : Prop :=
  ∀ j h, w.handles j = some h → j ≠ id → ¬h.phase.Attached

/-- A process closes no second descriptor while it holds the lock through another one, and the lock
file is removed only when nobody else has it open. -/
def Careful (w : World) : Action → Prop
  | .setLock id granted => granted = false → LastHolder w id
  | .fail id | .failCreated id | .leave id | .close id | .discardCreatedBundle id => LastHolder w id
  | .cleanUp id => LastAttached w id
  | _ => True

/-- What careful steps keep. -/
structure Guarded (w : World) : Prop where
  attached : ∀ i h, w.handles i = some h → h.phase.Attached → w.lockFile = some h.inode
  owned : ∀ i h, w.handles i = some h → h.phase.Holds → w.owner h.inode = some h.process

variable {w t : World}

theorem Guarded.init (database : Bool) : Guarded (World.init database) where
  attached i h hi := by cases hi
  owned i h hi := by cases hi

private theorem Guarded.ownsLock (g : Guarded w) : OwnsLock w := by
  intro i h hi hmanaging
  obtain ⟨created, hphase⟩ := hmanaging
  have hholds : h.phase.Holds := by rw [hphase]; trivial
  exact ⟨h.inode, g.attached i h hi hholds.attached, g.owned i h hi hholds⟩

theorem OwnsLock.exclusive (howns : OwnsLock w) : Exclusive w := by
  intro i j h h' hi hj hmanaging hmanaging'
  obtain ⟨inode, hfile, howner⟩ := howns i h hi hmanaging
  obtain ⟨inode', hfile', howner'⟩ := howns j h' hj hmanaging'
  obtain rfl := Option.some.inj (hfile.symm.trans hfile')
  exact Option.some.inj (howner.symm.trans howner')

private theorem setHandle_self (w : World) (id : ℕ) (h : Option Handle) :
    (w.setHandle id h).handles id = h := if_pos rfl

private theorem setHandle_of_ne (w : World) {id i : ℕ} (h : Option Handle) (hne : i ≠ id) :
    (w.setHandle id h).handles i = w.handles i := if_neg hne

private theorem Guarded.setHandle (g : Guarded w) {id : ℕ} {new : Option Handle}
    (hattached : ∀ h, new = some h → h.phase.Attached → w.lockFile = some h.inode)
    (howned : ∀ h, new = some h → h.phase.Holds → w.owner h.inode = some h.process) :
    Guarded (w.setHandle id new) := by
  constructor
  · intro i h hi hphase
    by_cases hid : i = id
    · subst hid
      rw [setHandle_self] at hi
      exact hattached h hi hphase
    · rw [setHandle_of_ne w new hid] at hi
      exact g.attached i h hi hphase
  · intro i h hi hphase
    by_cases hid : i = id
    · subst hid
      rw [setHandle_self] at hi
      exact howned h hi hphase
    · rw [setHandle_of_ne w new hid] at hi
      exact g.owned i h hi hphase

theorem Guarded.advance (g : Guarded w) {id process inode : ℕ} {phase : Phase}
    (hid : w.handles id = some ⟨process, inode, phase⟩) (hphase : phase.Holds) (phase' : Phase) :
    Guarded (w.setHandle id (some ⟨process, inode, phase'⟩)) := by
  apply g.setHandle
  · intro h hh _
    obtain rfl := Option.some.inj hh
    exact g.attached id ⟨process, inode, phase⟩ hid hphase.attached
  · intro h hh _
    obtain rfl := Option.some.inj hh
    exact g.owned id ⟨process, inode, phase⟩ hid hphase

theorem Guarded.release (g : Guarded w) {id : ℕ} {h : Handle} (hid : w.handles id = some h)
    (hclosed : h.phase ≠ .closed) (hlast : LastHolder w id) {new : Option Handle}
    (hnew : ∀ h, new = some h → ¬h.phase.Attached) :
    Guarded ((w.release h).setHandle id new) := by
  constructor
  · intro i other hi hphase
    by_cases hi' : i = id
    · subst hi'
      rw [setHandle_self] at hi
      exact absurd hphase (hnew other hi)
    · rw [setHandle_of_ne _ new hi'] at hi
      exact g.attached i other hi hphase
  · intro i other hi hphase
    by_cases hi' : i = id
    · subst hi'
      rw [setHandle_self] at hi
      exact absurd hphase.attached (hnew other hi)
    · rw [setHandle_of_ne _ new hi'] at hi
      have howner := g.owned i other hi hphase
      have hkept : ¬(other.inode = h.inode ∧ w.owner other.inode = some h.process) := by
        intro hlost
        obtain ⟨hinode, hprocess⟩ := hlost
        rw [howner] at hprocess
        exact hlast h hid hclosed i other hi hi' hphase (Option.some.inj hprocess) hinode
      show (if other.inode = h.inode ∧ w.owner other.inode = some h.process then none
        else w.owner other.inode) = some other.process
      rw [if_neg hkept]
      exact howner

theorem Guarded.remove (g : Guarded w) {id : ℕ} (hlast : LastAttached w id) {new : Option Handle}
    (hnew : ∀ h, new = some h → ¬h.phase.Attached) :
    Guarded ({ w with database := false, lockFile := none }.setHandle id new) := by
  constructor
  · intro i h hi hphase
    by_cases hid : i = id
    · subst hid
      rw [setHandle_self] at hi
      exact absurd hphase (hnew h hi)
    · rw [setHandle_of_ne _ new hid] at hi
      exact absurd hphase (hlast i h hi hid)
  · intro i h hi hphase
    by_cases hid : i = id
    · subst hid
      rw [setHandle_self] at hi
      exact absurd hphase.attached (hnew h hi)
    · rw [setHandle_of_ne _ new hid] at hi
      exact g.owned i h hi hphase

private theorem Guarded.openLockFile (g : Guarded w) (operation : Operation) (process id : ℕ) :
    Guarded (w.openLockFile operation process id) := by
  unfold World.openLockFile
  split
  · next inode hfile =>
    apply g.setHandle
    · intro h hh _
      obtain rfl := Option.some.inj hh
      exact hfile
    · intro h hh hholds
      obtain rfl := Option.some.inj hh
      exact hholds.elim
  · next hfile =>
    have hdetached : Guarded { w with lockFile := some w.nextInode, nextInode := w.nextInode + 1 } := by
      constructor
      · intro i h hi hphase
        have hsome := g.attached i h hi hphase
        rw [hfile] at hsome
        cases hsome
      · exact g.owned
    apply hdetached.setHandle
    · intro h hh _
      obtain rfl := Option.some.inj hh
      rfl
    · intro h hh hholds
      obtain rfl := Option.some.inj hh
      exact hholds.elim

private theorem Guarded.setLock (g : Guarded w) {id : ℕ} {granted : Bool}
    (hcareful : granted = false → LastHolder w id) (hstep : w.setLock id granted = some t) :
    Guarded t := by
  unfold World.setLock at hstep
  split at hstep
  · next process inode operation hid =>
    cases granted with
    | false =>
      obtain rfl := Option.some.inj hstep
      exact g.release hid nofun (hcareful rfl) fun h hh => by cases hh
    | true =>
      rw [if_pos rfl] at hstep
      split at hstep
      · next hfree =>
        obtain rfl := Option.some.inj hstep
        have hlocked : Guarded
            { w with owner := fun i => if i = inode then some process else w.owner i } := by
          constructor
          · exact g.attached
          · intro i h hi hphase
            have howner := g.owned i h hi hphase
            show (if h.inode = inode then some process else w.owner h.inode) = some h.process
            split
            · next hinode =>
              rw [hinode] at howner
              rcases hfree with hnone | hsame
              · rw [hnone] at howner
                cases howner
              · rw [← hsame, howner]
            · exact howner
        apply hlocked.setHandle
        · intro h hh _
          obtain rfl := Option.some.inj hh
          exact g.attached id ⟨process, inode, .descriptor operation⟩ hid trivial
        · intro h hh _
          obtain rfl := Option.some.inj hh
          exact if_pos rfl
      · cases hstep
  · cases hstep

private theorem Guarded.makeDatabase (g : Guarded w) {id : ℕ} (hstep : w.makeDatabase id = some t) :
    Guarded t := by
  unfold World.makeDatabase at hstep
  split at hstep
  · next process inode hid =>
    split at hstep
    · cases hstep
    · obtain rfl := Option.some.inj hstep
      have hfiles : Guarded { w with database := true } := ⟨g.attached, g.owned⟩
      exact hfiles.advance hid trivial .initializing
  · cases hstep

private theorem Guarded.succeed (g : Guarded w) {id : ℕ} (hstep : w.succeed id = some t) : Guarded t := by
  unfold World.succeed at hstep
  split at hstep
  · next process inode hid =>
    obtain rfl := Option.some.inj hstep
    exact g.advance hid trivial (.managing false)
  · next process inode hid =>
    obtain rfl := Option.some.inj hstep
    exact g.advance hid trivial (.managing true)
  · cases hstep

private theorem Guarded.cleanUp (g : Guarded w) {id : ℕ} (hcareful : LastAttached w id)
    (hstep : w.cleanUp id = some t) : Guarded t := by
  unfold World.cleanUp at hstep
  split at hstep
  · obtain rfl := Option.some.inj hstep
    apply g.remove hcareful
    intro h hh
    obtain rfl := Option.some.inj hh
    exact not_false
  · obtain rfl := Option.some.inj hstep
    exact g.remove hcareful fun h hh => by cases hh
  · cases hstep

private theorem Guarded.exit (g : Guarded w) (process : ℕ) : Guarded (w.exit process) := by
  constructor
  · intro i h hi hphase
    exact g.attached i h (Option.filter_eq_some_iff.mp hi).1 hphase
  · intro i h hi hphase
    obtain ⟨hhandle, hprocess⟩ := Option.filter_eq_some_iff.mp hi
    have howner := g.owned i h hhandle hphase
    show (if w.owner h.inode = some process then none else w.owner h.inode) = some h.process
    rw [howner, if_neg]
    intro heq
    exact of_decide_eq_true hprocess (Option.some.inj heq)

theorem Guarded.step {a : Action} (g : Guarded w) (hcareful : Careful w a)
    (hstep : w.step a = some t) : Guarded t := by
  cases a with
  | openLockFile operation process id =>
    simp only [World.step] at hstep
    split at hstep
    · obtain rfl := Option.some.inj hstep
      exact g.openLockFile operation process id
    · cases hstep
  | setLock id granted => exact g.setLock hcareful hstep
  | makeDatabase id => exact g.makeDatabase hstep
  | succeed id => exact g.succeed hstep
  | fail id =>
    simp only [World.step, World.fail] at hstep
    split at hstep
    · next hid =>
      obtain rfl := Option.some.inj hstep
      exact g.release hid nofun hcareful fun h hh => by cases hh
    · cases hstep
  | failCreated id =>
    simp only [World.step, World.failCreated] at hstep
    split at hstep
    · next hid =>
      obtain rfl := Option.some.inj hstep
      apply g.release hid nofun hcareful
      intro h hh
      obtain rfl := Option.some.inj hh
      exact not_false
    · cases hstep
  | cleanUp id => exact g.cleanUp hcareful hstep
  | leave id =>
    simp only [World.step, World.leave] at hstep
    split at hstep
    · next hid =>
      obtain rfl := Option.some.inj hstep
      exact g.release hid nofun hcareful fun h hh => by cases hh
    · cases hstep
  | close id =>
    simp only [World.step, World.close] at hstep
    split at hstep
    · next created hid =>
      obtain rfl := Option.some.inj hstep
      apply g.release hid nofun hcareful
      intro h hh
      cases created with
      | false => cases hh
      | true =>
        obtain rfl := Option.some.inj hh
        exact not_false
    · cases hstep
  | discardCreatedBundle id =>
    simp only [World.step, World.discardCreatedBundle] at hstep
    split at hstep
    · next created hid =>
      obtain rfl := Option.some.inj hstep
      apply g.release hid nofun hcareful
      intro h hh
      cases created with
      | false => cases hh
      | true =>
        obtain rfl := Option.some.inj hh
        exact not_false
    · next hid =>
      obtain rfl := Option.some.inj hstep
      apply g.setHandle
      · intro h hh hattached
        obtain rfl := Option.some.inj hh
        exact hattached.elim
      · intro h hh hholds
        obtain rfl := Option.some.inj hh
        exact hholds.elim
    · cases hstep
  | exit process =>
    obtain rfl := Option.some.inj hstep
    exact g.exit process

end Exclusion

section Runs

/-- In every run of careful steps, managers of two processes are never open together, and each open
manager's process owns the lock on the lock file. -/
theorem exclusive_of_reaches {database : Bool} {w : World}
    (h : System.Reaches World.step Careful (World.init database) w) :
    Exclusive w ∧ OwnsLock w := by
  have howns : OwnsLock w := (h.invariant (Guarded.init database)
    fun _ _ _ g hcareful hstep => g.step hcareful hstep).ownsLock
  exact ⟨howns.exclusive, howns⟩

/-- `workspace_service::open_database`: the new manager is open before the old one is destroyed. -/
def openDatabase (process old new : ℕ) : List Action :=
  [.openLockFile .openBundle process new, .setLock new true, .succeed new, .close old]

def openActions (process id : ℕ) : List Action :=
  [.openLockFile .openBundle process id, .setLock id true, .succeed id]

/-- One process opens the bundle, reopens it, and another one opens it too. -/
theorem not_exclusive :
    ¬∀ w, System.Reaches World.step (fun _ _ => True) (World.init true) w →
      Exclusive w ∧ OwnsLock w := by
  intro hall
  have hrun : (System.run World.step (fun _ _ => True) (World.init true)
      (openActions 0 0 ++ openDatabase 0 0 1 ++ openActions 1 2)).map
      (fun w => (w.handles 1, w.handles 2)) =
      some (some ⟨0, 0, .managing false⟩, some ⟨1, 0, .managing false⟩) := by
    decide +kernel
  obtain ⟨w, hw, hhandles⟩ := Option.map_eq_some_iff.mp hrun
  obtain ⟨hfirst, hsecond⟩ := Prod.mk.inj hhandles
  have hsame := (hall w (System.reaches_of_run hw)).1 1 2 _ _ hfirst hsecond ⟨false, rfl⟩ ⟨false, rfl⟩
  exact absurd hsame (by decide)

private theorem reaches_sample : ∃ w,
    System.Reaches World.step Careful (World.init false) w ∧
      w.handles 0 = some ⟨3, 0, .managing true⟩ := by
  have hfirst : ∀ w, Careful w (.openLockFile .createBundle 3 0) := fun _ => trivial
  have hgranted : ∀ w, Careful w (.setLock 0 true) := fun _ hfalse => by cases hfalse
  have hmade : ∀ w, Careful w (.makeDatabase 0) := fun _ => trivial
  have hdone : ∀ w, Careful w (.succeed 0) := fun _ => trivial
  exact ⟨_, (((System.Reaches.refl.tail (hfirst _) rfl).tail (hgranted _) rfl).tail (hmade _)
    rfl).tail (hdone _) rfl, rfl⟩

theorem exclusive_of_reaches_sample : ∃ w, w.handles 0 = some ⟨3, 0, .managing true⟩ ∧
    Exclusive w ∧ OwnsLock w := by
  obtain ⟨w, hreaches, hmanager⟩ := reaches_sample
  exact ⟨w, hmanager, exclusive_of_reaches hreaches⟩

end Runs

end MotifChess.Db.BundleLock
