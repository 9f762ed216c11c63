import Mathlib.Tactic.IntervalCases
import Line6.Lib.Window
import Line6.Plugin.Lifecycle

/-!
# Presence as a sliding window

The monitor keeps the last `write_frames` it saw, whether it saw one, and how many polls in a row
saw the same (up to four). Over a run of polls, with anything happening in between but a detaching,
the verdict it stores reads off a window of four polls.

* `presence_window`: a device is present after a poll exactly if the segment is attached and, in
  that poll or one of the three before it, was found for the first time or had another counter than
  in the poll before.
-/

namespace Line6

open Conc Conc.Prog

variable {α : Type}

/-! ## One poll -/

/-- The verdict on what a poll observes: nothing, or a reading of `write_frames`. -/
def Monitor.verdict (l : Monitor) : Option UInt64 → Bool × Monitor
  | none => (false, { l with haveLast := false })
  | some wf => l.observe wf

/-- `AttachShm` leaves the pointer or sets it. -/
theorem exec_attachShm (sys : Sys) (m : World α) :
    exec (attachShm sys) false m = .done false m () ∨
      exec (attachShm sys) false m =
        .done false { m with plug := { m.plug with gShm := true } } () := by
  unfold attachShm
  cases hg : m.plug.gShm
  · by_cases hopen : m.linked = true ∧ sys.openOk = true
    · by_cases hmmap : sys.mmapOk = true
      · by_cases hmagic : m.shm.magic = shmMagic
        · by_cases hversion : m.shm.version = shmVersion
          · right
            simp [hg, hopen, hmmap, hmagic, hversion, wrPlug, release]
          · left
            simp [hg, hopen, hmmap, hmagic, hversion, release]
        · left
          simp [hg, hopen, hmmap, hmagic, release]
      · left
        simp [hg, hopen, hmmap, release]
    · left
      by_cases hlinked : m.linked = true
      · have hsys : sys.openOk = false := by simpa [hlinked] using hopen
        simp [hg, hsys, release]
      · simp [hg, hlinked, release]
  · left
    simp [hg]

/-- The globals a poll leaves: the pointer at `g`, and the verdict. -/
def World.polled (m : World α) (g present : Bool) : World α :=
  { m with plug := { m.plug with gShm := g, gDevicePresent := present } }

/-- **One poll**: attach if possible, observe, store the verdict. -/
theorem exec_presencePoll (sys : Sys) (l : Monitor) (m : World α) :
    ∃ g, (m.plug.gShm = true → g = true) ∧
      let seen := l.verdict (if g then some m.shm.writeFrames else none)
      exec (presencePoll sys l) false m = .done false (m.polled g seen.1) seen.2 := by
  obtain ⟨g, hg, hattach⟩ : ∃ g, (m.plug.gShm = true → g = true) ∧
      exec (attachShm sys) false m =
        .done false { m with plug := { m.plug with gShm := g } } () := by
    rcases exec_attachShm sys m with h | h
    · exact ⟨m.plug.gShm, id, h⟩
    · exact ⟨true, fun _ => rfl, h⟩
  refine ⟨g, hg, ?_⟩
  unfold presencePoll notifyDeviceList World.polled
  rw [exec_bind_done hattach]
  cases g
  · cases hhost : m.plug.gHost <;> cases hprev : m.plug.gDevicePresent <;>
      simp [Monitor.verdict, hhost, hprev, callHost]
  · generalize hseen : l.observe m.shm.writeFrames = seen
    obtain ⟨present, l'⟩ := seen
    cases hhost : m.plug.gHost <;> by_cases hprev : m.plug.gDevicePresent = present <;>
      simp [Monitor.verdict, hhost, hprev, hseen, callHost]

/-! ## Runs of polls -/

/-- A run of `n` polls: the state each finds and leaves, and the locals before each. What happens
between polls is arbitrary, but an attached segment stays attached. -/
structure Polls (n : Nat) (sys : Nat → Sys) (found left : Nat → World α) (locals : Nat → Monitor) :
    Prop where
  start : locals 0 = {}
  poll : ∀ k < n, exec (presenceMonitor (sys k) (locals k)) false (found k) =
    .done false (left k) (some (locals (k + 1)))
  attached : ∀ k, k + 1 < n → (left k).plug.gShm = true → (found (k + 1)).plug.gShm = true

/-- Poll `j` is the first that finds the segment attached. -/
def FirstAttached (left : Nat → World α) (j : Nat) : Prop :=
  (left j).plug.gShm = true ∧ ∀ i < j, (left i).plug.gShm = false

/-- Poll `j` reads another counter than the poll before it. -/
def Differs (found left : Nat → World α) (j : Nat) : Prop :=
  0 < j ∧ (left (j - 1)).plug.gShm = true ∧
    (found j).shm.writeFrames ≠ (found (j - 1)).shm.writeFrames

/-- Poll `j` gives a sign of life. -/
def Fresh (found left : Nat → World α) (j : Nat) : Prop :=
  FirstAttached left j ∨ Differs found left j

variable {n : Nat} {sys : Nat → Sys} {found left : Nat → World α} {locals : Nat → Monitor}

/-- What one poll of a run does. -/
theorem Polls.step (h : Polls n sys found left locals) {k : Nat} (hk : k < n) :
    ((found k).plug.gShm = true → (left k).plug.gShm = true) ∧
      ((left k).plug.gDevicePresent, locals (k + 1)) = (locals k).verdict
        (if (left k).plug.gShm then some (found k).shm.writeFrames else none) := by
  obtain ⟨g, hg, hpoll⟩ := exec_presencePoll (sys k) (locals k) (found k)
  dsimp only at hpoll
  have hrun := h.poll k hk
  unfold presenceMonitor at hrun
  rw [rd_bind, exec_access, id_eq] at hrun
  cases hgo : (found k).plug.gMonitorRun
  · rw [hgo] at hrun
    injection hrun with _ _ hlocals
    cases hlocals
  · rw [hgo, if_pos rfl, exec_bind_done hpoll] at hrun
    injection hrun with _ hleft hlocals
    rw [← hleft, ← Option.some.inj hlocals]
    exact ⟨hg, rfl⟩

/-- Once attached, attached at every later poll. -/
theorem Polls.stays (h : Polls n sys found left locals) {j k : Nat} (hjk : j ≤ k) (hk : k < n)
    (hj : (left j).plug.gShm = true) : (left k).plug.gShm = true := by
  induction k, hjk using Nat.le_induction with
  | base => exact hj
  | succ k hjk ih => exact (h.step hk).1 (h.attached k hk (ih (by omega)))

/-- After an attached poll the next gives a sign of life iff the counter moved. -/
theorem fresh_succ_iff {k : Nat} (hk : (left k).plug.gShm = true) :
    Fresh found left (k + 1) ↔
      (found (k + 1)).shm.writeFrames ≠ (found k).shm.writeFrames := by
  constructor
  · rintro (⟨-, hfirst⟩ | ⟨-, -, hne⟩)
    · rw [hfirst k (Nat.lt_succ_self k)] at hk
      cases hk
    · exact hne
  · exact fun hne => .inr ⟨Nat.succ_pos k, hk, hne⟩

/-- What the locals remember after poll `k`: whether the segment was attached, and then the counter
it read and how long ago the last sign of life was. -/
structure Remembers (found left : Nat → World α) (k : Nat) (l : Monitor) : Prop where
  detached : (left k).plug.gShm = false →
    l.haveLast = false ∧ (left k).plug.gDevicePresent = false
  attached : (left k).plug.gShm = true →
    l.haveLast = true ∧ l.lastWf = (found k).shm.writeFrames ∧
      ∃ j, Window.Last (Fresh found left) k j ∧ l.stall = min kPresenceStallMax (k - j) ∧
        (left k).plug.gDevicePresent = decide (k < j + kPresenceStallMax)

theorem Polls.remembers_detached (h : Polls n sys found left locals) {k : Nat} (hk : k < n)
    (hshm : (left k).plug.gShm = false) : Remembers found left k (locals (k + 1)) := by
  have hstep := (h.step hk).2
  rw [hshm, if_neg Bool.false_ne_true] at hstep
  obtain ⟨hpresent, hlocals⟩ := Prod.mk.inj hstep
  exact ⟨fun _ => ⟨hlocals ▸ rfl, hpresent⟩, fun hk => absurd (hk.symm.trans hshm) nofun⟩

/-- A poll that gives a sign of life, and finds it in its locals. -/
theorem Polls.remembers_fresh (h : Polls n sys found left locals) {k : Nat} (hk : k < n)
    (hshm : (left k).plug.gShm = true) (hfresh : Fresh found left k)
    (hseen : (locals k).haveLast = false ∨ (found k).shm.writeFrames ≠ (locals k).lastWf) :
    Remembers found left k (locals (k + 1)) := by
  have hstep := (h.step hk).2
  have hobserve : (locals k).observe (found k).shm.writeFrames =
      (true, ⟨(found k).shm.writeFrames, true, 0⟩) := by
    unfold Monitor.observe
    rw [if_pos]
    rcases hseen with hnone | hne
    · simp [hnone]
    · simp [hne]
  rw [hshm, if_pos rfl, Monitor.verdict, hobserve] at hstep
  obtain ⟨hpresent, hlocals⟩ := Prod.mk.inj hstep
  refine ⟨fun hk => absurd (hk.symm.trans hshm) nofun, fun _ => ?_⟩
  rw [hlocals, hpresent]
  refine ⟨rfl, rfl, k, Window.Last.here hfresh, by simp, ?_⟩
  simp [kPresenceStallMax]

/-- A poll that reads the counter of the poll before. -/
theorem Polls.remembers_stale (h : Polls n sys found left locals) {k : Nat} (hk : k + 1 < n)
    (hshm : (left k).plug.gShm = true) (hremembers : Remembers found left k (locals (k + 1)))
    (hsame : (found (k + 1)).shm.writeFrames = (found k).shm.writeFrames) :
    Remembers found left (k + 1) (locals (k + 2)) := by
  obtain ⟨hlast, hwf, j, hj, hstall, -⟩ := hremembers.attached hshm
  have hshm' := h.stays (Nat.le_succ k) hk hshm
  have hstep := (h.step hk).2
  have hobserve : (locals (k + 1)).observe (found (k + 1)).shm.writeFrames =
      (decide (k + 1 < j + kPresenceStallMax),
        { locals (k + 1) with stall := min kPresenceStallMax (k + 1 - j) }) := by
    have hbump := Window.bump_min kPresenceStallMax (k - j)
    unfold Window.bump at hbump
    have hle := hj.le
    unfold Monitor.observe
    rw [if_neg (by simp [hlast, hwf, hsame]), hstall, hbump,
      show k - j + 1 = k + 1 - j by omega]
    refine Prod.ext (decide_eq_decide.mpr ?_) rfl
    change min 4 _ < 4 ↔ _ < j + 4
    omega
  rw [hshm', if_pos rfl, Monitor.verdict, hobserve] at hstep
  obtain ⟨hpresent, hlocals⟩ := Prod.mk.inj hstep
  refine ⟨fun hk => absurd (hk.symm.trans hshm') nofun, fun _ => ?_⟩
  rw [hlocals, hpresent]
  exact ⟨hlast, hwf.trans hsame.symm, j,
    hj.succ fun hfresh => (fresh_succ_iff hshm).mp hfresh hsame, rfl, rfl⟩

/-- **The locals remember the last sign of life** after every poll. -/
theorem Polls.remembers (h : Polls n sys found left locals) {k : Nat} (hk : k < n) :
    Remembers found left k (locals (k + 1)) := by
  induction k with
  | zero =>
    cases hshm : (left 0).plug.gShm with
    | false => exact h.remembers_detached hk hshm
    | true => exact h.remembers_fresh hk hshm (.inl ⟨hshm, nofun⟩) (.inl (by rw [h.start]))
  | succ k ih =>
    have hbefore := ih (Nat.lt_of_succ_lt hk)
    cases hshm : (left (k + 1)).plug.gShm with
    | false => exact h.remembers_detached hk hshm
    | true =>
      cases hprev : (left k).plug.gShm with
      | false =>
        refine h.remembers_fresh hk hshm (.inl ⟨hshm, fun i hi => ?_⟩)
          (.inl (hbefore.detached hprev).1)
        by_contra hattached
        have := h.stays (Nat.le_of_lt_succ hi) (Nat.lt_of_succ_lt hk)
          (eq_true_of_ne_false hattached)
        rw [hprev] at this
        cases this
      | true =>
        by_cases hsame : (found (k + 1)).shm.writeFrames = (found k).shm.writeFrames
        · exact h.remembers_stale hk hprev hbefore hsame
        · refine h.remembers_fresh hk hshm ((fresh_succ_iff hprev).mpr hsame) (.inr ?_)
          rwa [(hbefore.attached hprev).2.1]

/-- The verdict of one poll, as a window. -/
theorem Polls.present_iff (h : Polls n sys found left locals) {k : Nat} (hk : k < n) :
    (left k).plug.gDevicePresent = true ↔ (left k).plug.gShm = true ∧
      ∃ j ≤ k, k < j + 4 ∧ Fresh found left j := by
  cases hshm : (left k).plug.gShm with
  | false =>
    rw [((h.remembers hk).detached hshm).2]
    simp
  | true =>
    obtain ⟨-, -, j, hj, -, hpresent⟩ := (h.remembers hk).attached hshm
    rw [hpresent, decide_eq_true_iff]
    simp only [true_and]
    exact hj.recent_iff.symm

theorem Polls.attached_of_fresh (h : Polls n sys found left locals) {j : Nat} (hj : j < n)
    (hfresh : Fresh found left j) : (left j).plug.gShm = true := by
  rcases hfresh with ⟨hshm, -⟩ | ⟨hpos, hbefore, -⟩
  · exact hshm
  · exact h.stays (Nat.sub_le j 1) hj hbefore

/-- **Presence is a sliding window of four polls**, whatever is observed in them: the device is
present after a poll iff the segment is attached and that poll or one of the three before it found
it first or read another counter. So a device that gives a sign of life in any four polls in a row
is never gone, and one that gives none in four polls is gone after the fourth and not before. -/
theorem presence_window (h : Polls n sys found left locals) :
    (∀ k < n, (left k).plug.gDevicePresent = true ↔ (left k).plug.gShm = true ∧
      ∃ j ≤ k, k < j + 4 ∧ (FirstAttached left j ∨ Differs found left j)) ∧
    ((∀ i, i + 3 < n → (left i).plug.gShm = true → ∃ j, i ≤ j ∧ j < i + 4 ∧ Fresh found left j) →
      ∀ k < n, (left k).plug.gShm = true → (left k).plug.gDevicePresent = true) ∧
    (∀ k, k + 4 < n → Fresh found left k →
      (∀ j, k < j → j ≤ k + 4 → ¬ Fresh found left j) →
      (∀ j, k ≤ j → j < k + 4 → (left j).plug.gDevicePresent = true) ∧
        (left (k + 4)).plug.gDevicePresent = false) := by
  refine ⟨fun k hk => h.present_iff hk, fun hlively k hk hshm => ?_, fun k hk hfresh hsilent => ?_⟩
  · obtain ⟨-, -, j, hj, -, hpresent⟩ := (h.remembers hk).attached hshm
    rw [hpresent, decide_eq_true_iff]
    by_contra hold
    have hold : j + 4 ≤ k := Nat.le_of_not_lt hold
    -- the window that ends at `k` has a sign of life after the last one
    have hattached := h.attached_of_fresh (Nat.lt_of_le_of_lt hj.le hk) hj.holds
    obtain ⟨i, hlow, hhigh, hi⟩ := hlively (k - 3) (by omega)
      (h.stays (by omega) (by omega) hattached)
    exact hj.after i (by omega) (by omega) hi
  · have hattached := h.attached_of_fresh (by omega) hfresh
    constructor
    · intro j hkj hj
      exact (h.present_iff (by omega)).mpr
        ⟨h.stays hkj (by omega) hattached, k, hkj, hj, hfresh⟩
    · by_contra hpresent
      obtain ⟨-, j, hle, hlt, hj⟩ := (h.present_iff hk).mp (eq_true_of_ne_false hpresent)
      exact hsilent j (by omega) hle hj

/-- An attached plugin on a segment whose daemon stands still. -/
def stalled : World ℚ where
  linked := true
  shm := { (Shm.zero : Shm ℚ) with writeFrames := 48000 }
  plug := { gShm := true }

theorem presence_window_stalled :
    Polls 5 (fun _ => .fine) (fun _ => stalled) (fun k => stalled.polled true (decide (k < 4)))
      (fun k => if k = 0 then {} else ⟨48000, true, min 4 (k - 1)⟩) ∧
    (stalled.polled true (decide (4 < 4))).plug.gDevicePresent = false := by
  have hrun : Polls 5 (fun _ => .fine) (fun _ => stalled)
      (fun k => stalled.polled true (decide (k < 4)))
      (fun k => if k = 0 then {} else ⟨48000, true, min 4 (k - 1)⟩) := by
    refine ⟨rfl, fun k hk => ?_, fun _ _ _ => rfl⟩
    interval_cases k <;> rfl
  refine ⟨hrun, ((presence_window hrun).2.2 0 (by decide) (.inl ⟨rfl, nofun⟩) ?_).2⟩
  rintro j hlow hhigh (⟨-, hfirst⟩ | ⟨-, -, hne⟩)
  · exact absurd (hfirst 0 hlow) (by decide)
  · exact hne rfl

end Line6
