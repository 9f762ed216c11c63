import Line6.System.Listening

/-!
# The command line (`main`, `flag_value`, `list_devices` of `main.rs`)

`parseU32` is `str::parse::<u32>` of the standard library, and `command` the dispatch of `main`.
The line is read leniently: what is not understood is not an error. A flag counts wherever it
stands, the first of two `--latency-ms` counts, and one that is followed by no number below 2^32
counts as not given.

* `parseU32_iff`: it accepts the decimal numerals below 2^32, with or without a `+`.
* `flagValue_iff`: the flag, and a numeral right after its first occurrence.
* `main_exit`: how `main` ends, with the daemon's run behind it.
* `latency_reaches_plugin`: the latency asked for, clamped, is the margin the plugin keeps.
-/

namespace Line6

open Conc Conc.Prog

variable {α : Type}

/-! ## Numbers -/

/-- `checked_mul`. -/
def checkedMul (a b : UInt32) : Option UInt32 :=
  if a.toNat * b.toNat < 2 ^ 32 then some (a * b) else none

/-- `checked_add`. -/
def checkedAdd (a b : UInt32) : Option UInt32 :=
  if a.toNat + b.toNat < 2 ^ 32 then some (a + b) else none

/-- `to_digit(10)`. -/
def toDigit (c : Char) : Option UInt32 := if c.isDigit then some (c.val - 48) else none

/-- The digits of a `u32`, after those that made `result`. -/
def parseDigits : List Char → UInt32 → Option UInt32
  | [], result => some result
  | c :: cs, result => do
    let mul ← checkedMul result 10
    let x ← toDigit c
    parseDigits cs (← checkedAdd mul x)

/-- `str::parse::<u32>`: a `-` is not a sign of an unsigned number. -/
def parseU32 (s : String) : Option UInt32 :=
  match s.toList with
  | [] => none
  | ['+'] => none
  | ['-'] => none
  | '+' :: cs => parseDigits cs 0
  | cs => parseDigits cs 0

/-- A decimal numeral of the number `v`. -/
def Numeral (s : String) (v : Nat) : Prop :=
  ∃ cs, (s.toList = cs ∨ s.toList = '+' :: cs) ∧ cs ≠ [] ∧ (∀ c ∈ cs, c.isDigit = true) ∧
    Nat.ofDigitChars 10 cs 0 = v

theorem digit_range {c : Char} (hc : c.isDigit = true) : 48 ≤ c.toNat ∧ c.toNat ≤ 57 :=
  Char.isDigit_iff_toNat.mp hc

/-- One more digit, unless the number gets too large. -/
theorem appendDigit_iff {c : Char} {result next : UInt32} :
    (do checkedAdd (← checkedMul result 10) (← toDigit c)) = some next ↔
      c.isDigit = true ∧ 10 * result.toNat + (c.toNat - 48) = next.toNat := by
  have hnext := next.toNat_lt
  have hten : (10 : UInt32).toNat = 10 := rfl
  unfold toDigit
  by_cases hc : c.isDigit = true
  · obtain ⟨hlow, hhigh⟩ := digit_range hc
    have hx : (c.val - 48).toNat = c.toNat - 48 :=
      UInt32.toNat_sub_of_le _ _ (UInt32.le_iff_toNat_le.mpr hlow)
    unfold checkedMul checkedAdd
    by_cases hmul : result.toNat * 10 < 2 ^ 32
    · have hmul' : (result * 10).toNat = result.toNat * 10 := by
        rw [UInt32.toNat_mul, hten, Nat.mod_eq_of_lt hmul]
      simp only [hten, hmul, hc, hx, hmul', if_true, Option.bind_eq_bind, Option.bind_some, true_and]
      by_cases hadd : result.toNat * 10 + (c.toNat - 48) < 2 ^ 32
      · rw [if_pos hadd, Option.some.injEq, ← UInt32.toNat_inj, UInt32.toNat_add, hmul', hx,
          Nat.mod_eq_of_lt hadd, Nat.mul_comm]
      · rw [if_neg hadd]
        exact iff_of_false nofun (by omega)
    · simp only [hten, hmul, if_false, Option.bind_eq_bind, Option.bind_none]
      exact iff_of_false nofun (by omega)
  · simp [hc]

/-- Digits only make it larger. -/
theorem le_ofDigitChars (cs : List Char) (v : Nat) : v ≤ Nat.ofDigitChars 10 cs v := by
  induction cs generalizing v with
  | nil => rw [Nat.ofDigitChars_nil]
  | cons c cs ih =>
    rw [Nat.ofDigitChars_cons]
    have hrest := ih (10 * v + (c.toNat - '0'.toNat))
    omega

/-- The digits are read as a number, unless it gets too large. -/
theorem parseDigits_iff {cs : List Char} {result n : UInt32} : parseDigits cs result = some n ↔
    (∀ c ∈ cs, c.isDigit = true) ∧ Nat.ofDigitChars 10 cs result.toNat = n.toNat := by
  induction cs generalizing result with
  | nil => simp [parseDigits, UInt32.toNat_inj]
  | cons c cs ih =>
    have hsplit : parseDigits (c :: cs) result =
        (do checkedAdd (← checkedMul result 10) (← toDigit c)).bind (parseDigits cs) := by
      simp only [parseDigits, Option.bind_eq_bind, Option.bind_assoc]
    rw [hsplit, Option.bind_eq_some_iff, Nat.ofDigitChars_cons, List.forall_mem_cons]
    constructor
    · rintro ⟨next, hnext, hrest⟩
      obtain ⟨hc, hval⟩ := appendDigit_iff.mp hnext
      obtain ⟨hcs, hn⟩ := ih.mp hrest
      rw [← hval] at hn
      exact ⟨⟨hc, hcs⟩, hn⟩
    · rintro ⟨⟨hc, hcs⟩, hn⟩
      have hchar : '0'.toNat = 48 := rfl
      rw [hchar] at hn
      have hle := le_ofDigitChars cs (10 * result.toNat + (c.toNat - 48))
      have hlt : 10 * result.toNat + (c.toNat - 48) < 2 ^ 32 := by
        rw [hn] at hle
        exact hle.trans_lt n.toNat_lt
      refine ⟨UInt32.ofNat (10 * result.toNat + (c.toNat - 48)), ?_, ?_⟩
      · exact appendDigit_iff.mpr ⟨hc, (UInt32.toNat_ofNat_of_lt' hlt).symm⟩
      · refine ih.mpr ⟨hcs, ?_⟩
        rw [UInt32.toNat_ofNat_of_lt' hlt]
        exact hn

/-- **`parse` accepts the decimal numerals below 2^32**, with leading zeros or a `+` or without. -/
theorem parseU32_iff {s : String} {n : UInt32} : parseU32 s = some n ↔ Numeral s n.toNat := by
  have hdigits (cs : List Char) : parseDigits cs 0 = some n ↔
      (∀ c ∈ cs, c.isDigit = true) ∧ Nat.ofDigitChars 10 cs 0 = n.toNat := parseDigits_iff
  have hsign {c : Char} {cs : List Char} (hc : c.isDigit = false) :
      ¬ ∀ x ∈ c :: cs, x.isDigit = true := fun h => by
    rw [h c List.mem_cons_self] at hc
    cases hc
  unfold parseU32 Numeral
  split
  case h_1 h =>
    rw [h]
    refine iff_of_false nofun ?_
    rintro ⟨cs, rfl | hcs, hne, -⟩
    · exact hne rfl
    · cases hcs
  case h_2 h =>
    rw [h]
    refine iff_of_false nofun ?_
    rintro ⟨cs, rfl | hcs, hne, hall, -⟩
    · exact hsign rfl hall
    · cases hcs
      exact hne rfl
  case h_3 h =>
    rw [h]
    refine iff_of_false nofun ?_
    rintro ⟨cs, rfl | hcs, -, hall, -⟩
    · exact hsign rfl hall
    · cases hcs
  case h_4 cs hne h =>
    rw [h, hdigits]
    constructor
    · rintro ⟨hall, hval⟩
      exact ⟨cs, .inr rfl, fun h => hne h, hall, hval⟩
    · rintro ⟨cs', rfl | hcs, -, hall, hval⟩
      · exact absurd hall (hsign rfl)
      · cases hcs
        exact ⟨hall, hval⟩
  case h_5 hne _ _ hplus =>
    rw [hdigits]
    constructor
    · rintro ⟨hall, hval⟩
      exact ⟨s.toList, .inl rfl, fun h => hne h, hall, hval⟩
    · rintro ⟨cs, rfl | hcs, -, hall, hval⟩
      · exact ⟨hall, hval⟩
      · exact (hplus cs hcs).elim

/-! ## main -/

/-- `flag_value`: the number after the first occurrence of the flag. -/
def flagValue (args : List String) (flag : String) : Option UInt32 := do
  let i ← args.findIdx? (· == flag)
  let v ← args[i + 1]?
  parseU32 v

/-- The flag is followed, where it first stands, by a numeral of `v`. -/
def FlagGiven (args : List String) (flag : String) (v : Nat) : Prop :=
  ∃ before s after, args = before ++ flag :: s :: after ∧ flag ∉ before ∧ Numeral s v

theorem flagValue_cons (a : String) (args : List String) (flag : String) :
    flagValue (a :: args) flag =
      if a = flag then args.head?.bind parseU32 else flagValue args flag := by
  unfold flagValue
  rw [List.findIdx?_cons]
  by_cases ha : a = flag
  · rw [if_pos ha, beq_iff_eq.mpr ha, if_pos rfl]
    cases args <;> rfl
  · rw [if_neg ha, beq_eq_false_iff_ne.mpr ha, if_neg Bool.false_ne_true]
    cases args.findIdx? (· == flag) <;> rfl

/-- **The value of a flag** is the numeral right after its first occurrence, if there is one. -/
theorem flagValue_iff {args : List String} {flag : String} {n : UInt32} :
    flagValue args flag = some n ↔ FlagGiven args flag n.toNat := by
  induction args with
  | nil =>
    refine iff_of_false nofun ?_
    rintro ⟨before, s, after, hsplit, -⟩
    cases before <;> cases hsplit
  | cons a args ih =>
    rw [flagValue_cons]
    by_cases ha : a = flag
    · rw [if_pos ha, Option.bind_eq_some_iff]
      constructor
      · rintro ⟨s, hhead, hparse⟩
        obtain ⟨after, rfl⟩ := List.head?_eq_some_iff.mp hhead
        exact ⟨[], s, after, by rw [ha]; rfl, List.not_mem_nil, parseU32_iff.mp hparse⟩
      · rintro ⟨before, s, after, hsplit, hnot, hnum⟩
        cases before with
        | nil =>
          cases hsplit
          exact ⟨s, rfl, parseU32_iff.mpr hnum⟩
        | cons b before =>
          cases hsplit
          exact absurd (ha ▸ List.mem_cons_self) hnot
    · rw [if_neg ha, ih]
      constructor
      · rintro ⟨before, s, after, rfl, hnot, hnum⟩
        refine ⟨a :: before, s, after, rfl, ?_, hnum⟩
        rintro (_ | hmem)
        · exact ha rfl
        · exact hnot ‹_›
      · rintro ⟨before, s, after, hsplit, hnot, hnum⟩
        cases before with
        | nil =>
          cases hsplit
          exact absurd rfl ha
        | cons b before =>
          cases hsplit
          exact ⟨before, s, after, rfl, fun h => hnot (List.mem_cons_of_mem _ h), hnum⟩

/-- What the command line asks for. -/
inductive Command where
  | daemon (args : Args)
  | list
  | unknown (cmd : String)
  deriving Repr, DecidableEq

/-- The dispatch of `main`: `argv` with the program's name in front. -/
def command (argv : List String) : Command :=
  let cmd := argv[1]?.getD "daemon"
  if cmd = "daemon" then
    .daemon
      { sine := argv.any (· == "--sine")
        exitWhenAbsent := argv.any (· == "--exit-when-absent")
        latencyMs := (flagValue argv "--latency-ms").getD 64 }
  else if cmd = "list" then .list
  else .unknown cmd

/-- `{:04x}`. -/
def hex4 (x : UInt16) : String :=
  let digits := Nat.toDigits 16 x.toNat
  String.ofList (List.replicate (4 - digits.length) '0' ++ digits)

/-- `{:<14}`. -/
def padded (name : String) : String :=
  name ++ String.ofList (List.replicate (14 - name.length) ' ')

/-- The lines of `list_devices`. -/
def listDevices (table : List Device) (scan : Scan) : List String :=
  let row (d : Device) :=
    s!"  {padded d.name} {hex4 vidLine6}:{hex4 d.productId}" ++
      s!"  {d.captureChannels} in / {d.playbackChannels} out"
  let connected := match findConnected table scan with
    | some d => s!"Connected: {d.name} ({hex4 d.productId})"
    | none => "Connected: none"
  "Supported devices:" :: table.map row ++ [connected]

/-- What `main` leaves: the exit status, its lines on the two outputs (not those `run_daemon`
writes as it goes), and the world. -/
structure Exit (α : Type) where
  status : UInt8
  stdout : List String
  stderr : List String
  world : World α

/-- The end of `main`. -/
def exitWith (stdout : List String) (m : World α) : Except String Unit → Exit α
  | .ok () => ⟨0, stdout, [], m⟩
  | .error e => ⟨1, stdout, [s!"error: {e}"], m⟩

/-- `main`: how it ends in the course of the turns, if it does. -/
def main [Pcm α] (osc : Nat → α) (table : List Device) (argv : List String) (scan : Scan)
    (turns : List Turn) (now : ℚ) (m : World α) : Option (Exit α) :=
  match command argv with
  | .daemon args => do
    let (result, m) ← runDaemon osc table args turns (.init now) m
    return exitWith [] m result
  | .list => exitWith (listDevices table scan) m (.ok ())
  | .unknown other =>
    exitWith [] m (.error s!"unknown command '{other}' (use: daemon, list)")

/-- The run of the daemon that `main` starts. -/
theorem main_daemon [Pcm α] {osc : Nat → α} {table : List Device} {argv : List String} {scan : Scan}
    {turns : List Turn} {now : ℚ} {m : World α} {e : Exit α} {args : Args}
    (h : main osc table argv scan turns now m = some e) (hcmd : command argv = .daemon args) :
    ∃ tr r, DaemonRun osc table args now tr (.returned r) e.world ∧ tr.map Prod.fst <+: turns ∧
      e = exitWith [] e.world r := by
  unfold main at h
  rw [hcmd] at h
  obtain ⟨⟨r, m'⟩, hrun, hexit⟩ := Option.bind_eq_some_iff.mp h
  obtain ⟨tr, hdaemon, hturns⟩ := (DaemonRun.start m).of_runDaemon hrun
  obtain rfl : exitWith [] m' r = e := Option.some.inj hexit
  have hworld : (exitWith [] m' r).world = m' := by cases r <;> rfl
  rw [hworld]
  exact ⟨tr, r, hdaemon, hturns, rfl⟩

/-- **How `main` ends.** It fails if it does not know the command, or if the daemon found a device
with no engine active and could not make the segment for it. Otherwise it has listed the devices, or
a signal has stopped the daemon, or `--exit-when-absent` has, after three scans in a row that found
no device. -/
theorem main_exit [Pcm α] {osc : Nat → α} {table : List Device} {argv : List String} {scan : Scan}
    {turns : List Turn} {now : ℚ} {m : World α} {e : Exit α}
    (h : main osc table argv scan turns now m = some e) :
    (e.status = 0 ∧ e.stderr = [] ∧
      (command argv = .list ∧ e.world = m ∧ e.stdout = listDevices table scan ∨
        ∃ args tr, command argv = .daemon args ∧ tr.map Prod.fst <+: turns ∧
          DaemonRun osc table args now tr (.returned (.ok ())) e.world ∧
          (Signalled tr ∨ GoneAbsent table args tr))) ∨
    (e.status = 1 ∧
      ((∃ other, command argv = .unknown other) ∧ e.world = m ∨
        ∃ args before turn self d err, command argv = .daemon args ∧ turn ∈ turns ∧
          DaemonRun osc table args now (before ++ [(turn, self)]) (.returned (.error err)) e.world ∧
          self.active = none ∧ findConnected table turn.scan = some d ∧
          (∃ m₁ m₂ : World α, exec (create d args.latencyFrames turn.sys) false m₁ =
            .done false m₂ (.error err)) ∧ e.stderr = [s!"error: {err}"])) := by
  cases hcmd : command argv with
  | list =>
    unfold main at h
    rw [hcmd] at h
    cases h
    exact .inl ⟨rfl, rfl, .inl ⟨rfl, rfl, rfl⟩⟩
  | unknown other =>
    unfold main at h
    rw [hcmd] at h
    cases h
    exact .inr ⟨rfl, .inl ⟨⟨other, rfl⟩, rfl⟩⟩
  | daemon args =>
    obtain ⟨tr, r, hrun, hturns, hexit⟩ := main_daemon h hcmd
    have hinv := hrun.exitInv
    rw [hexit]
    cases r with
    | ok _ =>
      refine .inl ⟨rfl, rfl, .inr ⟨args, tr, rfl, hturns, hrun, ?_⟩⟩
      exact hinv.imp And.left And.right
    | error err =>
      obtain ⟨-, before, turn, self, d, m₁, m₂, rfl, hidle, hfound, hfailed⟩ := hinv
      have hturn : turn ∈ turns := hturns.subset (by simp)
      exact .inr ⟨rfl, .inr ⟨args, before, turn, self, d, err, rfl, hturn, hrun, hidle, hfound,
        ⟨m₁, m₂, hfailed⟩, rfl⟩⟩

example : listDevices devices ⟨0, [none, some (vidLine6, 0x414A)]⟩ =
    ["Supported devices:", "  POD X3 Live    0e41:414b  8 in / 2 out",
      "  POD X3         0e41:414a  8 in / 2 out", "Connected: POD X3 (414a)"] := by decide

/-! ## The latency -/

section

variable [Pcm α] {osc : Nat → α} {table : List Device} {args : Args} {now : ℚ} {m m₀ : World α}
  {flow : Flow} {log : List LoopEvent} {heard : Intake} {d : Device} {argv : List String}

/-- **The latency asked for is the margin the plugin keeps.** Whatever the command line, once a
header is filled the margin of every `DoIOOperation` call is the number after the first
`--latency-ms`, between 5 and 500 ms at 48 frames each; and the plugin's own default when there is
no such flag, no number after it, or one that does not fit 32 bits. -/
theorem latency_reaches_plugin (hcmd : command argv = .daemon args)
    (h : StreamRun osc table args now m₀ log heard flow m) (hd : lastCreated log = some d)
    (l : Bool) : ∃ margin, exec readMargin l m = .done l m margin ∧
      (∀ v < 2 ^ 32, FlagGiven argv "--latency-ms" v → margin.toNat = 48 * max 5 (min v 500)) ∧
      ((∀ v < 2 ^ 32, ¬ FlagGiven argv "--latency-ms" v) → margin = kDefaultMargin) := by
  obtain ⟨-, hheader⟩ := streamRun_header h hd
  have hms : args.latencyMs = (flagValue argv "--latency-ms").getD 64 := by
    unfold command at hcmd
    dsimp only at hcmd
    split_ifs at hcmd
    cases hcmd
    rfl
  have hframes := args.latencyFrames_eq
  have hread : exec readMargin l m = .done l m args.latencyFrames := by
    have hrange := args.latencyFrames_range
    have hne : m.shm.latencyFrames ≠ 0 := fun hzero => by
      rw [← hheader.latency, hzero] at hrange
      exact absurd hrange.1 (by decide)
    rw [← hheader.latency]
    unfold readMargin
    simp only [rd_bind, exec_access, id_eq, bne_iff_ne.mpr hne, if_true]
    rfl
  refine ⟨_, hread, fun v hv hgiven => ?_, fun hnone => ?_⟩
  · have hval : (UInt32.ofNat v).toNat = v := UInt32.toNat_ofNat_of_lt' hv
    have hflag : flagValue argv "--latency-ms" = some (UInt32.ofNat v) := by
      rw [flagValue_iff, hval]
      exact hgiven
    rw [hframes, hms, hflag, Option.getD_some, hval]
  · have hflag : flagValue argv "--latency-ms" = none :=
      Option.eq_none_iff_forall_ne_some.mpr fun n hn =>
        hnone n.toNat n.toNat_lt (flagValue_iff.mp hn)
    rw [hflag] at hms
    rw [← UInt32.toNat_inj, hframes, hms]
    rfl

end

/-- A daemon called with `--latency-ms +020` finds a device. -/
theorem latency_reaches_plugin_twenty : ∃ (m : World ℚ) (margin : UInt32),
    command ["line6-daemon", "daemon", "--latency-ms", "+020"] = .daemon ⟨false, false, 20⟩ ∧
      exec readMargin false m = .done false m margin ∧ margin.toNat = 960 := by
  have hstart : StreamRun (fun _ => (0 : ℚ)) monoStereo.rows ⟨false, false, 20⟩ 0
      ⟨true, Shm.zero, {}⟩ [] _ _ _ := .start
  have hfound := hstart.pass (.finding 2 0) (by rintro _ ⟨⟩) rfl
  have hcmd : command ["line6-daemon", "daemon", "--latency-ms", "+020"] =
      .daemon ⟨false, false, 20⟩ := by decide
  obtain ⟨margin, hexec, hgiven, -⟩ := latency_reaches_plugin hcmd hfound rfl false
  refine ⟨_, margin, hcmd, hexec, hgiven 20 (by decide) ?_⟩
  exact ⟨["line6-daemon", "daemon"], "+020", [], rfl, by decide, ['0', '2', '0'], .inr rfl,
    by decide, List.all_eq_true.mp rfl, rfl⟩

end Line6
