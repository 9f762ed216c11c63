import Line6.Plugin.Presence
import Line6.System.Listening

/-!
# From the device to the device list

A `Watched` run puts the daemon and the presence monitor together: the polls of the monitor, and
between two of them any number of passes of `run_daemon` and whatever else leaves the segment
alone.

* `Watched.counts`: at a poll the write head is the number of whole frames that came since the
  header was filled.
* `Watched.differs_iff`: two polls in a row read different counters iff frames arrived in between.
* `presence_follows_packets`: so the device is listed exactly while it sends, with the four polls
  of delay the monitor gives it.
-/

namespace Line6

open Conc Conc.Prog

variable {α : Type}

/-! ## The packets of a stretch of a run -/

/-- All packets since the header was filled. -/
def Intake.packets (heard : Intake) : List Received := heard.earlier.flatten ++ heard.current

theorem packets_receive (heard : Intake) (ps : List Received) :
    (heard.receive ps).packets = heard.packets ++ ps :=
  (List.append_assoc ..).symm

/-- A new engine leaves them, and so does everything but a `create`. -/
theorem packets_events {evs : List LoopEvent} (heard : Intake) (h : ∀ d, .created d ∉ evs) :
    (evs.foldl Intake.after heard).packets = heard.packets := by
  induction evs generalizing heard with
  | nil => rfl
  | cons e evs ih =>
    rw [List.foldl_cons, ih _ fun d hd => h d (List.mem_cons_of_mem e hd)]
    cases e with
    | created d => exact absurd List.mem_cons_self (h d)
    | started d wf now =>
      unfold Intake.packets Intake.after
      rw [List.flatten_append, List.flatten_singleton, List.append_nil]
    | _ => rfl

theorem packets_pass {evs : List LoopEvent} (heard : Intake) (ps : List Received)
    (h : ∀ d, .created d ∉ evs) : (heard.pass ps evs).packets = heard.packets ++ ps :=
  (packets_events _ h).trans (packets_receive heard ps)

/-- Once the header is filled it is filled for a device. -/
theorem lastCreated_of_mem {log : List LoopEvent} {d : Device} (h : .created d ∈ log) :
    ∃ e, lastCreated log = some e := by
  induction log using List.reverseRecOn with
  | nil => cases h
  | append_singleton log e ih =>
    rw [lastCreated_snoc]
    rcases List.mem_append.mp h with h | h
    · obtain ⟨c, hc⟩ := ih h
      cases e with
      | created e => exact ⟨e, rfl⟩
      | _ => exact ⟨c, hc⟩
    · rw [← List.mem_singleton.mp h]
      exact ⟨d, rfl⟩

/-- How a run of `run_daemon` goes on from a state: by passes, and by whatever leaves the segment
alone. -/
inductive Continued [Pcm α] (osc : Nat → α) (table : List Device) (args : Args)
    (log : List LoopEvent) (heard : Intake) (flow : Flow) (m : World α) :
    List LoopEvent → Intake → Flow → World α → Prop
  | here : Continued osc table args log heard flow m log heard flow m
  | elsewhere {log' : List LoopEvent} {heard' : Intake} {flow' : Flow} {m₁ m' : World α}
      (h : Continued osc table args log heard flow m log' heard' flow' m₁)
      (hshm : m'.shm = m₁.shm) : Continued osc table args log heard flow m log' heard' flow' m'
  | pass {log' evs : List LoopEvent} {heard' : Intake} {self : Daemon} {flow' : Flow}
      {m₁ m' : World α} (turn : Turn)
      (h : Continued osc table args log heard flow m log' heard' (.next self) m₁)
      (hfits : PassFits osc turn self m₁)
      (hpass : iterateLogged osc table args turn self m₁ = some (flow', m', evs)) :
      Continued osc table args log heard flow m (log' ++ evs)
        (heard'.pass (self.received osc turn m₁) evs) flow' m'

section

variable [Pcm α] {osc : Nat → α} {table : List Device} {args : Args} {now : ℚ}
  {log log' : List LoopEvent} {heard heard' : Intake} {flow flow' : Flow} {m m' m₀ : World α}

/-- It goes on as a run. -/
theorem StreamRun.continued (hrun : StreamRun osc table args now m₀ log heard flow m)
    (h : Continued osc table args log heard flow m log' heard' flow' m') :
    StreamRun osc table args now m₀ log' heard' flow' m' := by
  induction h with
  | here => exact hrun
  | elsewhere _ hshm ih => exact ih.elsewhere hshm
  | pass turn _ hfits hpass ih => exact ih.pass turn hfits hpass

/-- **The packets grow** until the header is filled anew. -/
theorem Continued.packets (h : Continued osc table args log heard flow m log' heard' flow' m') :
    ∃ evs, log' = log ++ evs ∧
      ((∀ d, .created d ∉ evs) → ∃ ps, heard'.packets = heard.packets ++ ps) := by
  induction h with
  | here => exact ⟨[], (List.append_nil log).symm, fun _ => ⟨[], (List.append_nil _).symm⟩⟩
  | elsewhere _ _ ih => exact ih
  | @pass _ more heard' self _ m₁ _ turn _ _ _ ih =>
    obtain ⟨evs, rfl, hgrows⟩ := ih
    refine ⟨evs ++ more, List.append_assoc .., fun hnone => ?_⟩
    obtain ⟨ps, hps⟩ := hgrows fun d hd => hnone d (List.mem_append_left more hd)
    refine ⟨ps ++ self.received osc turn m₁, ?_⟩
    rw [packets_pass _ _ fun d hd => hnone d (List.mem_append_right evs hd), hps,
      List.append_assoc]

end

/-! ## The monitor over the daemon -/

/-- A run of `n` polls of the monitor. Before the first the daemon has come somewhere, and between
two it goes on. -/
structure Watched [Pcm α] (osc : Nat → α) (table : List Device) (args : Args) (now : ℚ)
    (m₀ : World α) (n : Nat) (sys : Nat → Sys) (found left : Nat → World α)
    (locals : Nat → Monitor) (log : Nat → List LoopEvent) (heard : Nat → Intake)
    (flow : Nat → Flow) : Prop where
  polls : Polls n sys found left locals
  first : 0 < n → StreamRun osc table args now m₀ (log 0) (heard 0) (flow 0) (found 0)
  goesOn : ∀ k, k + 1 < n → Continued osc table args (log k) (heard k) (flow k) (left k)
    (log (k + 1)) (heard (k + 1)) (flow (k + 1)) (found (k + 1))

/-- The header was filled between poll `j` and the one before it. -/
def Refilled (log : Nat → List LoopEvent) (j : Nat) : Prop :=
  ∃ d, LoopEvent.created d ∈ (log j).drop (log (j - 1)).length

/-- The device sent something between poll `j` and the one before it: a whole frame; or, if the
header was filled in between, not just as many since then as the counter said before. -/
def Sends (found : Nat → World α) (log : Nat → List LoopEvent) (heard : Nat → Intake) (j : Nat) :
    Prop :=
  ∃ d, lastCreated (log j) = some d ∧
    (¬ Refilled log j → ∃ ps, (heard j).packets = (heard (j - 1)).packets ++ ps ∧
      0 < frameCount d.captureChannels.toNat ps) ∧
    (Refilled log j → frameCount d.captureChannels.toNat (heard j).packets ≠
      (found (j - 1)).shm.writeFrames.toNat)

section

variable [Pcm α] {osc : Nat → α} {table : List Device} {args : Args} {now : ℚ} {m₀ : World α}
  {n : Nat} {sys : Nat → Sys} {found left : Nat → World α} {locals : Nat → Monitor}
  {log : Nat → List LoopEvent} {heard : Nat → Intake} {flow : Nat → Flow}

omit [Pcm α] in
/-- A poll leaves the segment alone. -/
theorem Polls.sameSegment (h : Polls n sys found left locals) {k : Nat} (hk : k < n) :
    (left k).shm = (found k).shm := by
  obtain ⟨g, -, hpoll⟩ := exec_presencePoll (sys k) (locals k) (found k)
  dsimp only at hpoll
  have hrun := h.poll k hk
  unfold presenceMonitor at hrun
  rw [rd_bind, exec_access, id_eq] at hrun
  cases hgo : (found k).plug.gMonitorRun
  · rw [hgo] at hrun
    injection hrun with _ _ hlocals
    cases hlocals
  · rw [hgo, if_pos rfl, exec_bind_done hpoll] at hrun
    injection hrun with _ hleft
    rw [← hleft]
    rfl

/-- Every poll finds a state that the daemon reaches. -/
theorem Watched.streamRun (h : Watched osc table args now m₀ n sys found left locals log heard flow)
    {k : Nat} (hk : k < n) :
    StreamRun osc table args now m₀ (log k) (heard k) (flow k) (found k) := by
  induction k with
  | zero => exact h.first hk
  | succ k ih =>
    have hpolled := (ih (by omega)).elsewhere (h.polls.sameSegment (Nat.lt_of_succ_lt hk))
    exact hpolled.continued (h.goesOn k hk)

/-- **What a poll reads**: before the header is filled, what the segment had; then the number of
whole frames that came since. -/
theorem Watched.counts (hdistinct : (table.map Device.productId).Nodup)
    (hcount : ∀ d ∈ table, 1 ≤ d.captureChannels.toNat ∧ d.captureChannels.toNat ≤ 8)
    (h : Watched osc table args now m₀ n sys found left locals log heard flow) {k : Nat}
    (hk : k < n) :
    (lastCreated (log k) = none → (found k).shm = m₀.shm) ∧
    ∀ d, lastCreated (log k) = some d → (found k).shm.writeFrames =
      UInt64.ofNat (frameCount d.captureChannels.toNat (heard k).packets) := by
  have hinv := streamRun_inv hdistinct hcount (h.streamRun hk)
  refine ⟨hinv.untouched, fun d hd => ?_⟩
  have hhead := (hinv.published d hd).1
  rwa [heardFrames_length] at hhead

omit [Pcm α] in
theorem ofNat_ne_iff {a : Nat} {w : UInt64} (ha : a < 2 ^ 64) :
    UInt64.ofNat a ≠ w ↔ a ≠ w.toNat := by
  rw [Ne, ← UInt64.toNat_inj, UInt64.toNat_ofNat', Nat.mod_eq_of_lt ha]

/-- **Two polls in a row read different counters** iff something came in between. -/
theorem Watched.differs_iff (hdistinct : (table.map Device.productId).Nodup)
    (hcount : ∀ d ∈ table, 1 ≤ d.captureChannels.toNat ∧ d.captureChannels.toNat ≤ 8)
    (h : Watched osc table args now m₀ n sys found left locals log heard flow)
    (hlen : ∀ k < n, ∀ d, lastCreated (log k) = some d →
      frameCount d.captureChannels.toNat (heard k).packets < 2 ^ 64) {k : Nat} (hk : k + 1 < n) :
    (found (k + 1)).shm.writeFrames ≠ (found k).shm.writeFrames ↔
      Sends found log heard (k + 1) := by
  obtain ⟨hnone, hsome⟩ := h.counts hdistinct hcount (Nat.lt_of_succ_lt hk)
  obtain ⟨hnone', hsome'⟩ := h.counts hdistinct hcount hk
  obtain ⟨evs, hevs, hgrows⟩ := (h.goesOn k hk).packets
  have hrefilled : Refilled log (k + 1) ↔ ∃ d, .created d ∈ evs := by
    unfold Refilled
    rw [Nat.add_sub_cancel, hevs, List.drop_left]
  by_cases hfilled : ∃ d, .created d ∈ evs
  · -- The counter starts over, for the device of the last `create`.
    obtain ⟨c, hc⟩ := hfilled
    obtain ⟨d, hd⟩ : ∃ d, lastCreated (log (k + 1)) = some d :=
      lastCreated_of_mem (hevs ▸ List.mem_append_right _ hc)
    rw [hsome' d hd, ofNat_ne_iff (hlen (k + 1) hk d hd)]
    constructor
    · exact fun hne => ⟨d, hd, fun hnot => absurd (hrefilled.mpr ⟨c, hc⟩) hnot, fun _ => hne⟩
    · rintro ⟨e, he, -, hfill⟩
      obtain rfl := Option.some.inj (he.symm.trans hd)
      exact hfill (hrefilled.mpr ⟨c, hc⟩)
  · -- It goes on, by the frames of the packets in between.
    have hkept : ∀ d, .created d ∉ evs := fun d hd => hfilled ⟨d, hd⟩
    have hlast : lastCreated (log (k + 1)) = lastCreated (log k) := by
      rw [hevs, lastCreated_append _ hkept]
    obtain ⟨ps, hps⟩ := hgrows hkept
    cases hd : lastCreated (log k) with
    | none =>
      have hboth : (found (k + 1)).shm = (found k).shm :=
        (hnone' (hlast.trans hd)).trans (hnone hd).symm
      refine iff_of_false (not_not_intro (congrArg Shm.writeFrames hboth)) ?_
      rintro ⟨d, hd', -⟩
      rw [hlast, hd] at hd'
      cases hd'
    | some d =>
      have hd' := hlast.trans hd
      have hsmall := hlen (k + 1) hk d hd'
      have hbefore := hlen k (Nat.lt_of_succ_lt hk) d hd
      rw [hsome' d hd', ofNat_ne_iff hsmall, hsome d hd, UInt64.toNat_ofNat',
        Nat.mod_eq_of_lt hbefore, hps, frameCount_append]
      constructor
      · exact fun hmore => ⟨d, hd', fun _ => ⟨ps, hps, by omega⟩,
          fun hre => absurd (hrefilled.mp hre) hfilled⟩
      · rintro ⟨e, he, hcame, -⟩
        obtain rfl := Option.some.inj (he.symm.trans hd')
        obtain ⟨qs, hqs, hmore⟩ := hcame (mt hrefilled.mp hfilled)
        rw [Nat.add_sub_cancel, hps] at hqs
        rw [List.append_cancel_left hqs]
        omega

/-- **The device is listed while it sends.** After a poll it is present iff the plugin is attached
and, in that poll or one of the three before it, was attached for the first time or something had
arrived since the poll before. So a device of which something arrives between any two polls is
always there; and one that falls silent is gone with the fourth poll from then on. -/
theorem presence_follows_packets (hdistinct : (table.map Device.productId).Nodup)
    (hcount : ∀ d ∈ table, 1 ≤ d.captureChannels.toNat ∧ d.captureChannels.toNat ≤ 8)
    (h : Watched osc table args now m₀ n sys found left locals log heard flow)
    (hlen : ∀ k < n, ∀ d, lastCreated (log k) = some d →
      frameCount d.captureChannels.toNat (heard k).packets < 2 ^ 64) :
    (∀ k < n, (left k).plug.gDevicePresent = true ↔ (left k).plug.gShm = true ∧
      ∃ j ≤ k, k < j + 4 ∧ (FirstAttached left j ∨
        0 < j ∧ (left (j - 1)).plug.gShm = true ∧ Sends found log heard j)) ∧
    ((∀ k, k + 1 < n → (left k).plug.gShm = true → Sends found log heard (k + 1)) →
      ∀ k < n, (left k).plug.gShm = true → (left k).plug.gDevicePresent = true) ∧
    ∀ k, k + 4 < n → (left k).plug.gShm = true →
      (∀ j, k < j → j ≤ k + 4 → ¬ Sends found log heard j) →
      (left (k + 4)).plug.gDevicePresent = false := by
  have hfresh {j : Nat} (hj : j < n) : Fresh found left j ↔ FirstAttached left j ∨
      0 < j ∧ (left (j - 1)).plug.gShm = true ∧ Sends found log heard j := by
    refine or_congr_right (and_congr_right fun hpos => and_congr_right fun _ => ?_)
    obtain ⟨i, rfl⟩ := Nat.exists_eq_add_of_lt hpos
    rw [Nat.zero_add] at hj ⊢
    exact h.differs_iff hdistinct hcount hlen hj
  have hwindow : ∀ k < n, (left k).plug.gDevicePresent = true ↔ (left k).plug.gShm = true ∧
      ∃ j ≤ k, k < j + 4 ∧ (FirstAttached left j ∨
        0 < j ∧ (left (j - 1)).plug.gShm = true ∧ Sends found log heard j) := by
    intro k hk
    rw [h.polls.present_iff hk]
    refine and_congr_right fun _ => exists_congr fun j => and_congr_right fun hj => ?_
    rw [hfresh (hj.trans_lt hk)]
  refine ⟨hwindow, fun hsends k hk hshm => ?_, fun k hk hshm hsilent => ?_⟩
  · refine (hwindow k hk).mpr ⟨hshm, k, le_rfl, by omega, ?_⟩
    by_cases hbefore : ∃ i < k, (left i).plug.gShm = true
    · obtain ⟨i, hi, hattached⟩ := hbefore
      obtain ⟨k, rfl⟩ := Nat.exists_eq_succ_of_ne_zero (Nat.ne_zero_of_lt hi)
      have hstill := h.polls.stays (Nat.le_of_lt_succ hi) (Nat.lt_of_succ_lt hk) hattached
      exact .inr ⟨Nat.succ_pos k, hstill, hsends k hk hstill⟩
    · exact .inl ⟨hshm, fun i hi => eq_false_of_ne_true fun hi' => hbefore ⟨i, hi, hi'⟩⟩
  · by_contra hpresent
    obtain ⟨-, j, hle, hlt, ⟨-, hfirst⟩ | ⟨-, -, harrives⟩⟩ :=
      (hwindow (k + 4) hk).mp (eq_true_of_ne_false hpresent)
    · rw [hfirst k (by omega)] at hshm
      cases hshm
    · exact hsilent j (by omega) hle harrives

/-! ## Every run can be watched -/

omit [Pcm α] in
/-- A poll of an attached plugin. -/
theorem exec_presenceMonitor_attached (sys : Sys) (l : Monitor) {m : World α}
    (hshm : m.plug.gShm = true) (hgo : m.plug.gMonitorRun = true) :
    exec (presenceMonitor sys l) false m =
      .done false (m.polled true (l.observe m.shm.writeFrames).1)
        (some (l.observe m.shm.writeFrames).2) := by
  obtain ⟨g, hg, hpoll⟩ := exec_presencePoll sys l m
  obtain rfl := hg hshm
  unfold presenceMonitor
  rw [rd_bind, exec_access, id_eq, hgo, if_pos rfl, exec_bind_done hpoll]
  rfl

/-- The locals of the monitor before each of some polls of an attached plugin. -/
def observing (found : Nat → World α) : Nat → Monitor
  | 0 => {}
  | k + 1 => ((observing found k).observe (found k).shm.writeFrames).2

/-- It does not matter what the state was elsewhere. -/
theorem Continued.of_same {log₀ log₁ : List LoopEvent} {heard₀ heard₁ : Intake}
    {flow₀ flow₁ : Flow} {m m' m₁ : World α}
    (h : Continued osc table args log₀ heard₀ flow₀ m log₁ heard₁ flow₁ m')
    (hshm : m.shm = m₁.shm) :
    Continued osc table args log₀ heard₀ flow₀ m₁ log₁ heard₁ flow₁ m' := by
  induction h with
  | here => exact Continued.here.elsewhere hshm
  | elsewhere _ hsame ih => exact ih.elsewhere hsame
  | pass turn _ hfits hpass ih => exact ih.pass turn hfits hpass

/-- The monitor of an attached plugin polls any run of the daemon. -/
theorem watched_of_attached
    (hfirst : StreamRun osc table args now m₀ (log 0) (heard 0) (flow 0) (found 0))
    (hgoes : ∀ k, Continued osc table args (log k) (heard k) (flow k) (found k)
      (log (k + 1)) (heard (k + 1)) (flow (k + 1)) (found (k + 1)))
    (hshm : ∀ k, (found k).plug.gShm = true) (hgo : ∀ k, (found k).plug.gMonitorRun = true)
    (n : Nat) : Watched osc table args now m₀ n (fun _ => .fine) found
      (fun k => (found k).polled true ((observing found k).observe (found k).shm.writeFrames).1)
      (observing found) log heard flow where
  polls := {
    start := rfl
    poll := fun k _ => exec_presenceMonitor_attached .fine (observing found k) (hshm k) (hgo k)
    attached := fun k _ _ => hshm (k + 1) }
  first := fun _ => hfirst
  goesOn := fun k _ => (hgoes k).of_same rfl

end

set_option maxRecDepth 20000 in
/-- A daemon finds a device, and eight frames arrive. -/
theorem continued_tailed : ∃ (log₀ log₁ : List LoopEvent) (heard₀ heard₁ : Intake)
    (flow₀ flow₁ : Flow) (m₁ m₂ : World ℚ),
    StreamRun (fun _ => (0 : ℚ)) monoStereo.rows ⟨false, false, 10⟩ 0
        ⟨true, Shm.zero, { gShm := true }⟩ log₀ heard₀ flow₀ m₁ ∧
      Continued (fun _ => (0 : ℚ)) monoStereo.rows ⟨false, false, 10⟩ log₀ heard₀ flow₀ m₁
        log₁ heard₁ flow₁ m₂ ∧
      (lastCreated log₀ = some stereoDevice ∧ lastCreated log₁ = some stereoDevice ∧
        ∀ d, .created d ∉ log₁.drop log₀.length) ∧
      (heard₀.packets = [] ∧ frameCount 2 heard₁.packets = 8) ∧
      m₁.plug = { gShm := true } ∧ m₂.plug = { gShm := true } := by
  have hstart : StreamRun (fun _ => (0 : ℚ)) monoStereo.rows ⟨false, false, 10⟩ 0
      ⟨true, Shm.zero, { gShm := true }⟩ [] _ _ _ := .start
  have hfound := hstart.pass (.finding 2 0) (by rintro _ ⟨⟩) rfl
  refine ⟨_, _, _, _, _, _, _, _, hfound,
    Continued.here.pass { Turn.finding 2 1 with events := [secondDelivery] } ?_ rfl,
    ⟨rfl, rfl, by simp⟩, ⟨rfl, by decide⟩, rfl, rfl⟩
  rintro cap hcap c hc
  obtain rfl := List.mem_singleton.mp (Daemon.delivered_subset _ _ _ _ hc)
  cases hcap
  exact secondDelivery_fits

/-- Eight frames arrive between the first two polls, and then nothing more. -/
theorem presence_follows_packets_silent : ∃ (found left : Nat → World ℚ) (locals : Nat → Monitor)
    (log : Nat → List LoopEvent) (heard : Nat → Intake) (flow : Nat → Flow),
    Watched (fun _ => (0 : ℚ)) monoStereo.rows ⟨false, false, 10⟩ 0
        ⟨true, Shm.zero, { gShm := true }⟩ 6 (fun _ => .fine) found left locals log heard flow ∧
      (left 4).plug.gDevicePresent = true ∧ (left 5).plug.gDevicePresent = false := by
  obtain ⟨log₀, log₁, heard₀, heard₁, flow₀, flow₁, m₁, m₂, hrun, hgoes, ⟨hlog₀, hlog₁, hkept⟩,
    ⟨hheard₀, hheard₁⟩, hplug₁, hplug₂⟩ := continued_tailed
  let found : Nat → World ℚ := fun k => if k = 0 then m₁ else m₂
  let log : Nat → List LoopEvent := fun k => if k = 0 then log₀ else log₁
  let heard : Nat → Intake := fun k => if k = 0 then heard₀ else heard₁
  let flow : Nat → Flow := fun k => if k = 0 then flow₀ else flow₁
  have hplug (k : Nat) : (found k).plug = { gShm := true } := by
    cases k with
    | zero => exact hplug₁
    | succ k => exact hplug₂
  have hcontinued (k : Nat) : Continued (fun _ => (0 : ℚ)) monoStereo.rows ⟨false, false, 10⟩
      (log k) (heard k) (flow k) (found k) (log (k + 1)) (heard (k + 1)) (flow (k + 1))
      (found (k + 1)) := by
    cases k with
    | zero => exact hgoes
    | succ k => exact .here
  have hwatched : Watched _ _ _ _ _ 6 _ found _ _ log heard flow := watched_of_attached hrun
    hcontinued (fun k => congrArg Plugin.gShm (hplug k))
    (fun k => congrArg Plugin.gMonitorRun (hplug k)) 6
  have hlen (k : Nat) (hk : k < 6) (d : Device) (hd : lastCreated (log k) = some d) :
      frameCount d.captureChannels.toNat (heard k).packets < 2 ^ 64 := by
    cases k with
    | zero =>
      show frameCount _ heard₀.packets < _
      rw [hheard₀]
      exact Nat.two_pow_pos 64
    | succ k =>
      obtain rfl := Option.some.inj (hlog₁.symm.trans hd)
      show frameCount 2 heard₁.packets < _
      rw [hheard₁]
      decide
  have harrives : Sends found log heard 1 := by
    refine ⟨stereoDevice, hlog₁, fun _ => ⟨heard₁.packets, ?_, ?_⟩, ?_⟩
    · show heard₁.packets = heard₀.packets ++ _
      rw [hheard₀, List.nil_append]
    · show 0 < frameCount 2 heard₁.packets
      rw [hheard₁]
      decide
    · rintro ⟨d, hd⟩
      exact absurd hd (hkept d)
  have hsilent (j : Nat) (hj : 1 < j) : ¬ Sends found log heard j := by
    obtain ⟨i, rfl⟩ := Nat.exists_eq_add_of_le' hj
    rintro ⟨d, -, hsends, -⟩
    have hkept : ¬ Refilled log (i + 2) := by
      rintro ⟨d, hd⟩
      have hd : LoopEvent.created d ∈ log₁.drop log₁.length := hd
      rw [List.drop_length] at hd
      cases hd
    obtain ⟨ps, hps, hmore⟩ := hsends hkept
    have hps : heard₁.packets = heard₁.packets ++ ps := hps
    rw [List.self_eq_append_right.mp hps] at hmore
    exact absurd hmore (Nat.lt_irrefl 0)
  obtain ⟨hwindow, -, hgone⟩ := presence_follows_packets (by decide) (by decide) hwatched hlen
  refine ⟨_, _, _, _, _, _, hwatched, ?_, hgone 1 (by decide) ?_ fun j hj _ => hsilent j hj⟩
  · exact (hwindow 4 (by decide)).mpr
      ⟨rfl, 1, by decide, by decide, .inr ⟨by decide, rfl, harrives⟩⟩
  · rfl

end Line6
