import Fifo.Proofs.Command.Conversation

/-!
# The command reports its run

The command reads its arguments and a program file, makes a machine and holds a session with it.  A
program file that is a text is always read; if the labels of the program are at fault the command
stops before it shows anything, and otherwise all that it leaves behind is the story of the exchange
(`exists_run_iff`).  In that story there is no trace of the number of steps in a slice.
-/

namespace Fifo

open Command

/-- There is a report of the fault, in bold red, and the status is that of a failure. -/
def Command.Transcript.Reports (t : Transcript) (f : Fault) : Prop :=
  t.report = some ("\x1b[1;31mError: " ++ f.text ++ "\x1b[0m\n") ∧ t.status = 255

namespace Exchange

/-- A machine at the first line of a program, and the rows of input it will get.  Its shuffles
follow the seed, or the clock if there is none. -/
def starting (clock : Random.Clock) (seed : Option UInt64) (source : List String)
    (rows : List Bytes) : Exchange :=
  ⟨((seed.elim (Machine.fresh clock) (Machine.fresh clock).seed).load source).1, rows⟩

theorem starting_live {clock : Random.Clock} {seed : Option UInt64} {source : List String}
    {rows : List Bytes} {p : Program} (h : Program.ofSource source = .ok p) :
    (starting clock seed source rows).machine.phase ≠ .stopped := by
  simp [starting, Machine.load, h]

/-- What must be left behind where `output` was shown before the end. -/
def Finish.Reported (output : String) (t : Transcript) : Finish → Prop
  | .exit value =>
      t.output = output ∧ t.report = none ∧ (t.status.toNat : Int) = value.toInt % 256
  | .fault f => t.output = output ∧ t.Reports f
  | .unreadable prompt =>
      t.output = output ++ prompt ∧
        ∃ f : Fault, f.kind = .internalError ∧ f.line = none ∧ t.Reports f

end Exchange

namespace Command

open Exchange

/-- The exit status is the value modulo 256. -/
theorem toNat_exitStatus (value : Int64) :
    ((exitStatus value).toNat : Int) = value.toInt % 256 := by
  have hbits : value.toInt = value.toUInt64.toBitVec.toInt := rfl
  have hnat : value.toUInt64.toBitVec.toNat = value.toUInt64.toNat := rfl
  rw [exitStatus, UInt64.toNat_toUInt8, hbits, BitVec.toInt_eq_toNat_cond, hnat]
  have hlt := value.toUInt64.toNat_lt
  split <;> omega

/-- A session leaves behind what it must. -/
theorem reported_transcript (finish : Finish) (output : String) :
    finish.Reported output (finish.transcript output) := by
  cases finish with
  | exit value => exact ⟨rfl, rfl, toNat_exitStatus value⟩
  | fault f => exact ⟨rfl, rfl, rfl⟩
  | unreadable prompt => exact ⟨rfl, Source.notText, rfl, rfl, rfl, rfl⟩

/-- The text shown before the program runs. -/
def opening (options : Options) (p : Program) : String :=
  if options.list then p.listing else ""

theorem prepare_ok {clock : Random.Clock} {options : Options} {source : List String} {p : Program}
    (h : Program.ofSource source = .ok p) (rows : List Bytes) :
    prepare clock options source =
      .ok ((starting clock options.seed source rows).machine, opening options p) := by
  unfold prepare opening starting
  cases options.seed <;> simp [Machine.load, h]

theorem prepare_error {clock : Random.Clock} {options : Options} {source : List String} {f : Fault}
    (h : Program.ofSource source = .error f) : prepare clock options source = .error f := by
  simp [prepare, Machine.load, h]

section

variable {clock : Random.Clock} {tree : FileTree} {args : List String} {options : Options}
  {source : List String} {input : Bytes}

/-- A command stops before it shows anything if the labels of its program are at fault. -/
theorem run_of_fault (hargs : Request.ofArguments args = .run options)
    (hsource : Source.load tree.read options.file = .ok source) {f : Fault}
    (hp : Program.ofSource source = .error f) (slices : Nat) :
    run clock slices tree args input = some (.failed "" f) := by
  simp only [run, hargs, runFile, hsource, Except.bind, prepare_error hp]

/-- A command holds a session with the machine that runs its program. -/
theorem run_of_program (hargs : Request.ofArguments args = .run options)
    (hsource : Source.load tree.read options.file = .ok source) {p : Program}
    (hp : Program.ofSource source = .ok p) (slices : Nat) :
    run clock slices tree args input =
      let x := starting clock options.seed source (Source.rows input)
      converse options.cycles slices x.machine x.rows (opening options p) := by
  simp only [run, hargs, runFile, hsource, Except.bind, prepare_ok hp (Source.rows input)]
  rfl

/-- A command comes to an end exactly if the exchange does, and leaves behind the story of it. -/
theorem exists_run_iff (hargs : Request.ofArguments args = .run options)
    (hcycles : 1 ≤ options.cycles) (hsource : Source.load tree.read options.file = .ok source)
    {p : Program} (hp : Program.ofSource source = .ok p) (t : Transcript) :
    (∃ slices, run clock slices tree args input = some t) ↔
      ∃ events finish,
        (starting clock options.seed source (Source.rows input)).Told events finish ∧
        t = finish.transcript (opening options p ++ Event.texts events) := by
  constructor
  · rintro ⟨slices, h⟩
    rw [run_of_program hargs hsource hp] at h
    exact told_of_converse (starting_live hp) h
  · rintro ⟨events, finish, htold, rfl⟩
    obtain ⟨n, hn⟩ := converse_of_told hcycles htold (opening options p)
    exact ⟨n, (run_of_program hargs hsource hp n).trans (hn 0)⟩

end

/-- **The command reports its run.**  A command that runs a program file reads every file that is a
text.  If the pass over the labels fails, nothing is shown but its fault.  Otherwise, if the
exchange of the machine and the rows of the input has an end, the output is the listing where it is
wanted and then the texts and prompts in order, and report and status are those of the end; the loop
never meets a machine that has stopped before; and a command that differs only in the number of
steps in a slice leaves behind the same. -/
theorem run_tells_exchange (clock : Random.Clock) (tree : FileTree) (args : List String)
    (options : Options) (text : String) (input : Bytes) (rows : List Bytes)
    (hargs : Request.ofArguments args = .run options) (hcycles : 1 ≤ options.cycles)
    (hname : Path.isProgram options.file = true)
    (hfile : tree.read options.file = .ok (Text.bytes text)) (hrows : Source.Cut input rows) :
    ∃ source, Source.lines (Text.bytes text) = .ok source ∧
      (∀ f, Program.ofSource source = .error f →
        ∃ t, (Finish.fault f).Reported "" t ∧
          ∀ slices, run clock slices tree args input = some t) ∧
      ∀ p, Program.ofSource source = .ok p →
        let x := starting clock options.seed source rows
        (∀ events finish, x.Told events finish →
          ∃ n t,
            finish.Reported ((if options.list then p.listing else "") ++ Event.texts events) t ∧
            ∀ slices, n ≤ slices → run clock slices tree args input = some t) ∧
        (∀ y, Leads options.cycles x y → (y.machine.execute options.cycles).2 ≠ .stopped) ∧
        ∀ args' cycles, Request.ofArguments args' = .run { options with cycles := cycles } →
          1 ≤ cycles → ∀ t,
            (∃ slices, run clock slices tree args input = some t) ↔
              ∃ slices, run clock slices tree args' input = some t := by
  obtain ⟨source, hlines⟩ := Source.exists_lines_of_text text
  have hsource : Source.load tree.read options.file = .ok source := by
    rw [Source.load, if_pos hname, hfile]
    exact hlines
  obtain rfl := hrows.rows_eq
  refine ⟨source, hlines, fun f hf => ?_, fun p hp => ⟨?_, ?_, ?_⟩⟩
  · exact ⟨_, reported_transcript (.fault f) "", run_of_fault hargs hsource hf⟩
  · intro events finish htold
    obtain ⟨n, hn⟩ := converse_of_told hcycles htold (opening options p)
    refine ⟨n, _, reported_transcript finish _, fun slices hle => ?_⟩
    obtain ⟨extra, rfl⟩ := Nat.exists_eq_add_of_le hle
    exact (run_of_program hargs hsource hp _).trans (hn extra)
  · intro y hleads
    exact (Machine.execute_live (hleads.live (starting_live hp)) rfl).1
  · intro args' cycles hargs' hcycles' t
    rw [exists_run_iff hargs hcycles hsource hp, exists_run_iff hargs' hcycles' hsource hp]
    rfl

theorem run_tells_exchange_answered :
    let text := "READ \"n? \"\nPOPLN\nPUSH 300\nRET\n"
    let tree := FileTree.empty.writeFile "a.qu" (Text.bytes text)
    let args := ["a.qu", "--seed", "7", "--cycles", "2", "--list"]
    ∃ n t, t.output = "0 READ \"n? \"\n1 POPLN\n2 PUSH 300\n3 RET\nn? 5\n" ∧ t.report = none ∧
      t.status = 44 ∧
      ∀ slices, n ≤ slices → run (.ticking 0) slices tree args (Text.bytes "5\r\n") = some t := by
  intro text tree args
  obtain ⟨source, hlines, -, hrun⟩ :=
    run_tells_exchange (.ticking 0) tree args ⟨"a.qu", some 7, true, 2⟩ text (Text.bytes "5\r\n")
      [Text.bytes "5\r\n"] (by decide +kernel) (by decide) (by decide +kernel) (by rfl)
      (Source.cut_rows _)
  obtain rfl : ["READ \"n? \"", "POPLN", "PUSH 300", "RET"] = source :=
    Except.ok.inj ((by decide +kernel : Source.lines (Text.bytes text) = .ok _).symm.trans hlines)
  obtain ⟨p, hp, hlisting⟩ :
      ∃ p, Program.ofSource ["READ \"n? \"", "POPLN", "PUSH 300", "RET"] = .ok p ∧
        p.listing = "0 READ \"n? \"\n1 POPLN\n2 PUSH 300\n3 RET\n" :=
    ⟨_, rfl, by decide +kernel⟩
  have hreads : Source.Reads (Text.bytes "5\r\n") "5" :=
    ⟨⟨"\r\n", by decide +kernel, by simp⟩, by simp⟩
  have htold :
      (starting (.ticking 0) (some 7) ["READ \"n? \"", "POPLN", "PUSH 300", "RET"]
        [Text.bytes "5\r\n"]).Told [.input "n? ", .print "5\n"] (.exit 300) :=
    .next (.answered (Machine.raises_of_event 9 (by decide +kernel) (by simp)) hreads)
      (.next (.printed (Machine.raises_of_event 9 (by decide +kernel) (by simp)))
        (.last (.exit (Machine.raises_of_event 9 (by decide +kernel) (by simp)))))
  obtain ⟨n, t, ⟨houtput, hreport, hstatus⟩, hall⟩ := (hrun p hp).1 _ _ htold
  refine ⟨n, t, ?_, hreport, ?_, hall⟩
  · rw [houtput]
    simp only [if_pos, hlisting]
    decide +kernel
  · have hvalue : (300 : Int64).toInt % 256 = 44 := by decide
    exact UInt8.toNat_inj.mp (Int.ofNat_inj.mp (hstatus.trans hvalue))

end Command
end Fifo
