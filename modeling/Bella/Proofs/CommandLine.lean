import Bella.Command.Basic
import Bella.Proofs.Ground
import Bella.Proofs.Growth
import Bella.Proofs.Output
import Bella.Proofs.Tower
import Bella.Proofs.Simulation.Redirect
import Mathlib.Tactic.IntervalCases

/-!
# The command line

The command takes flags and the name of a sample, in any order. A flag may be given more than once,
and any beginning of its name that has three characters will do, since the names differ in the third.
So the arguments come down to a set of flags and a name, and the command does with these what a
program does that is interpreted with the options that they stand for.

The command prints to the standard output, and a program that uses the library may collect lines
elsewhere. This makes no difference: a run prints to the sink of its options only, and it does the
same whichever sink that is.

The flag for the log has a handler write out every record. This takes levels, so a program that
nearly meets the bound may meet it with the flag. Otherwise the flag makes no difference either.

## Main definitions

* `Bella.Command.Spells`: the spellings of a flag.
* `Bella.Command.Arranged`: arguments that come down to some flags and at most one name.
* `Bella.Command.Outcome.ofRun`: what the command leaves behind after a run.
* `Bella.Command.CutOff`: the command failed because its program is nested too deeply.

## Main results

* `Bella.Command.ofArgument_of_spells`: every spelling of a flag is understood.
* `Bella.Command.parse_of_arranged`: what the arguments ask for.
* `Bella.interpret_fresh_prints`: a run prints to the sink of its options.
* `Bella.Command.perform_agrees_with_interpret`: what the command does.
-/

namespace Bella

/-! ### Where the lines of a run go -/

/-- Frames keep their options from the world `w₀` on, and all lines go to one sink. -/
structure PrintsTo (sink : Sink) (w₀ w : World) : Prop where
  frames : w₀.store.Evolves Frame.Widens w.store
  lines : ∀ line ∈ w.printed, line.1 = sink

namespace PrintsTo

variable {sink : Sink} {w₀ w v : World}

/-- A step prints nothing and loses no name. -/
theorem step (h : PrintsTo sink w₀ w) (hframes : w.store.Evolves Frame.Widens v.store)
    (hprinted : v.printed = w.printed) : PrintsTo sink w₀ v :=
  ⟨.trans .trans h.frames hframes, hprinted ▸ h.lines⟩

theorem kept (h : PrintsTo sink w₀ w) (hstore : v.store = w.store)
    (hprinted : v.printed = w.printed) : PrintsTo sink w₀ v :=
  h.step (hstore ▸ .refl (fun F => (Frame.Gains.refl F).widens) w.store) hprinted

/-- Statements that act on a frame with the sink `sink` print to that sink only. -/
def invariant {f : FrameId} {F : Frame} {o : Options} (hget : w₀.store.get? f = some F)
    (ho : F.options = some o) : ProgramInvariant where
  holds := PrintsTo o.sink w₀
  scope _ _ := True
  closures _ := True
  grows _ _ := True
  grows_refl _ := trivial
  grows_trans _ _ := trivial
  scope_grows _ _ := trivial
  lookup _ _ _ _ _ := trivial
  enter := by
    rintro x k vs i w hw - - - -
    have hends := enterCall_ends (x := x) (k := k) (f := i) (P := PrintsTo o.sink w₀) hw
      (hw.step ((Store.Evolves.append .refl _ _).mono Frame.Gains.widens) rfl)
      (fun j _ b (_ : b ∈ k.parameters.zip vs) v hv hfree =>
        hv.step ((Store.Evolves.bind hfree b.2).mono Frame.Gains.widens) rfl)
      fun v r hv => hv.kept rfl rfl
    exact hends.mono (fun h => ⟨h.1, trivial, trivial⟩) fun h => ⟨h, trivial⟩
  top i := i = f
  functions _ _ := True
  changes _ _ := True
  changes_refl _ := trivial
  changes_trans _ _ := trivial
  changes_of_grows _ := trivial
  scope_top _ _ := trivial
  start := by
    rintro i w v - hw rfl
    exact ⟨hw.kept rfl rfl, trivial⟩
  finish := by
    rintro done w v hw rfl
    exact ⟨hw.kept rfl rfl, trivial⟩
  declare := by
    rintro i x a w v - hw - hfree rfl
    exact ⟨hw.step ((Store.Evolves.bind hfree a).mono Frame.Gains.widens) rfl, trivial⟩
  declareFunction := by
    rintro i x ps body k w v - hw - hfree - rfl
    exact ⟨hw.step ((Store.Evolves.bind hfree (.closure k)).mono Frame.Gains.widens) rfl, trivial⟩
  assign := by
    rintro i x j a w v - hw - - rfl
    exact ⟨hw.step (.update w.store j x a) rfl, trivial⟩
  print := by
    rintro i line w v rfl hw rfl
    obtain ⟨G, hG, hwidens⟩ := hw.frames i F hget
    have hsink : (w.store.options i).sink = o.sink := by
      rw [Store.options_of_get? hG (hwidens.shape.2.2.trans ho)]
    refine ⟨⟨hw.frames, fun l hl => ?_⟩, trivial⟩
    obtain hl | rfl := Array.mem_push.mp hl
    · exact hw.lines l hl
    · exact hsink

end PrintsTo

/-- On a fresh frame, a program prints to the sink of its options and to no other. -/
theorem interpret_fresh_prints (passes : Nat) (program : Node) (o : Options) {w : World}
    (hw : w.printed = #[]) :
    ∀ line ∈ ((interpret passes program none (some o)).after w).printed, line.1 = o.sink := by
  obtain ⟨v, hlaid, hrun⟩ := interpret_fresh passes program (some o) w
  obtain ⟨F, hF, -, hoptions⟩ := hlaid.holds.globals
  have hstart : PrintsTo o.sink v v := by
    refine ⟨.refl (fun F => (Frame.Gains.refl F).widens) v.store, fun line hline => ?_⟩
    rw [hlaid.printed, hw] at hline
    exact absurd hline (Array.not_mem_empty line)
  rw [Run.after_congr hrun]
  exact ((PrintsTo.invariant hF hoptions).interpretIn_keeps passes
    (fun q (_ : q ∈ program.functions) => trivial) rfl hstart).1.lines

namespace Command

/-! ### Reading the arguments -/

/-- The text is the name of the flag or a beginning of it, with three characters at least. -/
def Spells (f : Flag) (s : String) : Prop :=
  ∃ long, (long, Switch.flag f) ∈ longNames ∧ s.toList <+: long.toList ∧ 3 ≤ s.toList.length

/-- The arguments are flags in some spelling, in the order of the list, and the name if there is one,
which does not start with a dash. -/
inductive Arranged : List String → List Flag → Option String → Prop
  | nil : Arranged [] [] none
  | flag {f : Flag} {s : String} {arguments : List String} {flags : List Flag}
      {name : Option String} (hs : Spells f s) (h : Arranged arguments flags name) :
      Arranged (s :: arguments) (f :: flags) name
  | name {s : String} {arguments : List String} {flags : List Flag}
      (hs : s.toList.head? ≠ some '-') (h : Arranged arguments flags none) :
      Arranged (s :: arguments) flags (some s)

/-- The beginnings of the names of flags are understood. -/
private theorem ofArgument_take {long : String} {f : Flag} (hlong : (long, Switch.flag f) ∈ longNames)
    {k : Nat} (hmore : 3 ≤ k) (hless : k ≤ long.toList.length) :
    Word.ofArgument (String.ofList (long.toList.take k)) = .ok (.switch (.flag f)) := by
  simp only [longNames, List.mem_cons, Prod.mk.injEq, Switch.flag.injEq, reduceCtorEq, and_false,
    false_or, List.not_mem_nil, or_false] at hlong
  obtain ⟨rfl, rfl⟩ | ⟨rfl, rfl⟩ | ⟨rfl, rfl⟩ | ⟨rfl, rfl⟩ := hlong
  · have hless : k ≤ 6 := hless
    interval_cases k <;> decide +kernel
  · have hless : k ≤ 9 := hless
    interval_cases k <;> decide +kernel
  · have hless : k ≤ 7 := hless
    interval_cases k <;> decide +kernel
  · have hless : k ≤ 6 := hless
    interval_cases k <;> decide +kernel

/-- Every spelling of a flag is understood. -/
theorem ofArgument_of_spells {f : Flag} {s : String} (h : Spells f s) :
    Word.ofArgument s = .ok (.switch (.flag f)) := by
  obtain ⟨long, hlong, hprefix, hmore⟩ := h
  have hs : s = String.ofList (long.toList.take s.toList.length) := by
    rw [← List.prefix_iff_eq_take.mp hprefix, String.ofList_toList]
  rw [hs]
  exact ofArgument_take hlong hmore hprefix.length_le

/-- What does not start with a dash can name a sample. -/
theorem ofArgument_of_name {s : String} (hs : s.toList.head? ≠ some '-') :
    Word.ofArgument s = .ok (.plain s) := by
  unfold Word.ofArgument
  cases hcs : s.toList with
  | nil => rfl
  | cons c cs =>
    rw [hcs] at hs
    have hc : c ≠ '-' := fun h => hs (congrArg some h)
    simp [hc]

private theorem words_cons {s : String} {word : Word} (hs : Word.ofArgument s = .ok word)
    (hne : s ≠ "--") (rest : List String) : words (s :: rest) = (words rest).map (word :: ·) := by
  rw [words, if_neg hne, hs]

private theorem Spells.ne_divider {f : Flag} {s : String} (h : Spells f s) : s ≠ "--" := by
  rintro rfl
  obtain ⟨-, -, -, hmore⟩ := h
  exact absurd hmore (by decide)

/-- A name that stands in no double dash's place is taken if the place for a name is free. -/
private theorem collect_plain {r : Request} (hr : r.settled = false) (s : String) {ws : List Word}
    (hws : .divider ∉ ws) :
    Request.collect r (.plain s :: ws) = Request.collect (r.settle (some s)) ws := by
  match ws, hws with
  | [], _ | .switch _ :: _, _ | .valued _ _ :: _, _ | .unknown _ :: _, _ | .plain _ :: _, _ =>
    simp [Request.collect, hr]
  | .divider :: _, hws => exact absurd List.mem_cons_self hws

/-- What arranged arguments add to a request. -/
private theorem collect_of_arranged {arguments : List String} {flags : List Flag}
    {name : Option String} (h : Arranged arguments flags name) :
    ∃ ws, words arguments = .ok ws ∧ .divider ∉ ws ∧
      ∀ r : Request, r.extras = [] → (name = none ∨ r.settled = false) →
        ∃ r', Request.collect r ws = .request r' ∧
          (∀ f, r'.has f = (flags.contains f || r.has f)) ∧ r'.sample = (name <|> r.sample) := by
  induction h with
  | nil =>
    refine ⟨[], rfl, List.not_mem_nil, fun r hextras _ => ⟨r, ?_, fun f => ?_, ?_⟩⟩
    · rw [Request.collect, hextras]
      rfl
    · simp
    · simp
  | @flag f s arguments flags name hs _ ih =>
    obtain ⟨ws, hws, hdivider, hcollect⟩ := ih
    refine ⟨.switch (.flag f) :: ws, ?_, by simpa using hdivider, fun r hextras hr => ?_⟩
    · rw [words_cons (ofArgument_of_spells hs) hs.ne_divider, hws]
      rfl
    · obtain ⟨r', hr', hhas, hsample⟩ := hcollect { r with flags := f :: r.flags } hextras hr
      refine ⟨r', by rw [Request.collect, hr'], fun g => ?_, hsample⟩
      rw [hhas, List.contains_cons, Request.has, Request.has, List.contains_cons]
      cases g == f <;> simp
  | @name s arguments flags hs _ ih =>
    obtain ⟨ws, hws, hdivider, hcollect⟩ := ih
    have hne : s ≠ "--" := by
      rintro rfl
      exact hs rfl
    refine ⟨.plain s :: ws, ?_, by simpa using hdivider, fun r hextras hr => ?_⟩
    · rw [words_cons (ofArgument_of_name hs) hne, hws]
      rfl
    · have hfree : r.settled = false := hr.resolve_left (by simp)
      obtain ⟨r', hr', hhas, hsample⟩ := hcollect (r.settle (some s)) hextras (.inl rfl)
      exact ⟨r', by rw [collect_plain hfree s hdivider, hr'], hhas, hsample⟩

/-- What arranged arguments ask for. -/
theorem parse_of_arranged {arguments : List String} {flags : List Flag} {name : Option String}
    (h : Arranged arguments flags name) :
    ∃ r, parse arguments = .request r ∧ (∀ f, r.has f = flags.contains f) ∧ r.sample = name := by
  obtain ⟨ws, hws, -, hcollect⟩ := collect_of_arranged h
  obtain ⟨r, hr, hhas, hsample⟩ := hcollect {} rfl (.inr rfl)
  refine ⟨r, ?_, fun f => ?_, ?_⟩
  · rw [parse, hws]
    exact hr
  · rw [hhas]
    simp [Request.has]
  · rw [hsample]
    cases name <;> rfl

/-! ### What the command does -/

section Perform

variable {stamp : String} {passes : Nat} {samples : Samples}

/-- Running a sample depends on the flags that are there, and on the name. -/
private theorem runSample_congr {r r' : Request} (hhas : ∀ f, r.has f = r'.has f)
    (hname : r.sampleName = r'.sampleName) :
    runSample stamp passes samples r = runSample stamp passes samples r' := by
  unfold runSample
  simp only [hhas, hname]

/-- The command lists the samples or runs one. -/
private theorem perform_of_arranged {arguments : List String} {flags : List Flag}
    {name : Option String} (h : Arranged arguments flags name) :
    perform stamp passes samples arguments =
      if flags.contains .list then .ok { status := 0, output := unlines (samples.map Prod.fst) }
      else runSample stamp passes samples { sample := name, flags } := by
  obtain ⟨r, hparse, hhas, hsample⟩ := parse_of_arranged h
  simp only [perform, hparse, hhas]
  refine congrArg (ite _ _) (runSample_congr hhas ?_)
  rw [Request.sampleName, hsample]
  rfl

/-- What the command leaves behind after a run whose lines went to the given sink: each line with a
line feed, and the log if one is kept, with the error that ended the program behind it. -/
def Outcome.ofRun (stamp : String) (debug : Bool) (sink : Sink) :
    EStateM.Result Halt World Unit → Except Halt Outcome
  | .ok _ w =>
    .ok { status := 0
          output := unlines (w.linesTo sink)
          errors := logText stamp debug w.records.toList }
  | .error (.error e) w =>
    .ok { status := 1
          output := unlines (w.linesTo sink)
          errors := logText stamp debug w.records.toList
            ++ e.kind.name ++ ": " ++ e.message ++ "\n" }
  | .error h _ => .error h

/-- A sample that is not found is refused, and nothing is printed. -/
private theorem runSample_unknown {r : Request} (hfind : samples.find? r.sampleName = none) :
    ∃ errors, runSample stamp passes samples r = .ok { status := 2, output := "", errors } := by
  rw [runSample, hfind]
  exact ⟨_, rfl⟩

/-- The options that the flags of a request stand for. -/
private def optionsOf (r : Request) : Options :=
  { scoping := if r.has .flat then .flat else .lexical, mathematics := r.has .mathematics }

/-- The sample that a request names is run with the options that its flags stand for, and its lines
go to the standard output. A handler is there if the log is kept. -/
private theorem runSample_eq_ofRun {r : Request} {program : Node}
    (hfind : samples.find? r.sampleName = some program) :
    runSample stamp passes samples r =
      Outcome.ofRun stamp (r.has .debug) .standard
        (interpretLogged (handlerLevels (r.has .debug)) passes program none (some (optionsOf r))
          {}) := by
  rw [runSample, hfind]
  change (match interpretLogged _ passes program none (some (optionsOf r)) {} with
    | .ok _ w => _
    | .error (.error e) w => _
    | .error h _ => _) = _
  generalize interpretLogged _ passes program none _ {} = result
  match result with
  | .ok _ _ | .error (.error _) _ | .error (.defect _) _ | .error .overflow _
  | .error .unfinished _ => rfl

/-- Whether a log is kept shows in the error stream only. -/
private theorem ofRun_log (stamp : String) (debug debug' : Bool) (sink : Sink)
    (result : EStateM.Result Halt World Unit) :
    (Outcome.ofRun stamp debug sink result).map (fun a => (a.status, a.output)) =
      (Outcome.ofRun stamp debug' sink result).map (fun a => (a.status, a.output)) := by
  match result with
  | .ok _ _ | .error (.error _) _ | .error (.defect _) _ | .error .overflow _
  | .error .unfinished _ => rfl

/-- The command failed because its program is nested too deeply, after it had printed some of the
given lines, the first ones. -/
def CutOff (lines : List String) (r : Except Halt Outcome) : Prop :=
  ∃ (e : Error) (log : String) (printed : List String), e.kind = .stackOverflow ∧
    printed <+: lines ∧
    r = .ok { status := 1
              output := unlines printed
              errors := log ++ e.kind.name ++ ": " ++ e.message ++ "\n" }

/-- The sample runs as it does without a handler, unless there is one and the run is cut off. -/
private theorem runSample_cases {r : Request} {program : Node}
    (hfind : samples.find? r.sampleName = some program) :
    runSample stamp passes samples r =
        Outcome.ofRun stamp (r.has .debug) .standard
          (interpret passes program none (some (optionsOf r)) {}) ∨
      r.has .debug = true ∧
        CutOff (((interpret passes program none (some (optionsOf r))).after {}).linesTo .standard)
          (runSample stamp passes samples r) := by
  rw [runSample_eq_ofRun hfind]
  cases r.has .debug with
  | false =>
    rw [handlerLevels, if_neg Bool.false_ne_true, interpretLogged_zero]
    exact .inl rfl
  | true =>
    obtain hsame | ⟨hcut, hprints⟩ := interpretLogged_cases (handlerLevels true) passes program none
      (some (optionsOf r)) {}
    · exact .inl (congrArg _ hsame)
    · obtain ⟨v, hv⟩ := Run.outcome_eq_error_iff.mp hcut
      rw [Run.after, hv] at hprints
      rw [hv]
      exact .inr ⟨rfl, _, _, _, rfl, hprints.linesTo .standard, rfl⟩

/-- Keeping a log changes neither the status nor the output, unless the run is cut off. -/
private theorem runSample_log {r r' : Request} (hhas : ∀ f, f ≠ .debug → r.has f = r'.has f)
    (hname : r.sampleName = r'.sampleName) (hdebug : r'.has .debug = false) :
    (runSample stamp passes samples r).map (fun a => (a.status, a.output)) =
        (runSample stamp passes samples r').map (fun a => (a.status, a.output)) ∨
      ∃ lines, CutOff lines (runSample stamp passes samples r) := by
  cases hfind : samples.find? r.sampleName with
  | none =>
    rw [runSample, runSample, ← hname, hfind]
    exact .inl rfl
  | some program =>
    have hoptions : optionsOf r = optionsOf r' := by
      rw [optionsOf, optionsOf, hhas .flat (by decide), hhas .mathematics (by decide)]
    have hplain : runSample stamp passes samples r' =
        Outcome.ofRun stamp (r'.has .debug) .standard
          (interpret passes program none (some (optionsOf r')) {}) :=
      (runSample_cases (hname ▸ hfind)).resolve_right fun hlogged => by
        rw [hdebug] at hlogged
        cases hlogged.1
    refine (runSample_cases hfind).imp (fun hsame => ?_) fun hcut => ⟨_, hcut.2⟩
    rw [hsame, hplain, hoptions]
    exact ofRun_log stamp _ _ .standard _

end Perform

/-- All sinks stand for the standard output. -/
def toStandard : Redirection := ⟨fun _ => .standard, [], [], rfl⟩

/-- If all lines went to one sink, it has received what the standard output receives. -/
private theorem linesTo_standard {w w' : World} (h : toStandard.Couples w w') {sink : Sink}
    (hlines : ∀ line ∈ w.printed, line.1 = sink) : w'.linesTo .standard = w.linesTo sink := by
  unfold World.linesTo
  rw [h.printed, Array.toList_map, List.filterMap_map]
  refine List.filterMap_congr fun line hline => ?_
  simp [toStandard, hlines line (Array.mem_toList_iff.mp hline)]

/-- A program ends alike, prints the same lines and leaves the same records, wherever its lines go.
-/
private theorem interpret_standard (passes : Nat) (program : Node) (o : Options) :
    let x := interpret passes program none (some { o with sink := .standard })
    let y := interpret passes program none (some o)
    x.outcome {} = y.outcome {} ∧ (x.after {}).linesTo .standard = (y.after {}).linesTo o.sink ∧
      (x.after {}).records.toList = (y.after {}).records.toList := by
  intro x y
  have hempty : toStandard.Couples {} {} := by
    refine ⟨?_, by simp, rfl, [], rfl, rfl⟩
    simp [Store.redirect]
  have hagrees : toStandard.coupling.Agrees Eq y x {} {} :=
    Redirection.interpret_fresh_agrees hempty passes program o
  obtain ⟨hworlds, hends⟩ := hagrees.ends fun _ _ => id
  obtain ⟨noted, hrecords, hrecords'⟩ := hworlds.records
  refine ⟨?_, linesTo_standard hworlds (interpret_fresh_prints passes program o rfl),
    hrecords'.trans hrecords.symm⟩
  obtain ⟨_, _, hy, hx, rfl⟩ | ⟨_, _, hy, hx, rfl⟩ := hends
  · rw [hx, hy]
  · rw [hx, hy]

/-- What the command leaves behind depends on the end of a run, on its lines and on its records. -/
private theorem ofRun_congr {x y : Run Unit} {w : World} {sink sink' : Sink} (stamp : String)
    (debug : Bool) (houtcome : x.outcome w = y.outcome w)
    (hlines : (x.after w).linesTo sink = (y.after w).linesTo sink')
    (hrecords : (x.after w).records.toList = (y.after w).records.toList) :
    Outcome.ofRun stamp debug sink (x w) = Outcome.ofRun stamp debug sink' (y w) := by
  unfold Run.outcome at houtcome
  unfold Run.after at hlines hrecords
  generalize x w = r, y w = r' at *
  cases r with
  | ok _ v =>
    cases r' with
    | ok _ v' => simp only [Outcome.ofRun, hlines, hrecords]
    | error k' v' => cases houtcome
  | error k v =>
    cases r' with
    | ok _ v' => cases houtcome
    | error k' v' =>
      obtain rfl : k = k' := Except.error.inj houtcome
      cases k with
      | error e => simp only [Outcome.ofRun, hlines, hrecords]
      | defect | overflow | unfinished => rfl

/-! ### Flags and names -/

/-- In a table without absent programs, a name is found if it is there. -/
private theorem find?_eq_lookup {samples : Samples}
    (hsamples : ∀ entry ∈ samples, entry.2.isNothing = false) (name : String) :
    samples.find? name = samples.lookup name := by
  unfold Samples.find?
  cases hlookup : samples.lookup name with
  | none => rfl
  | some program =>
    obtain ⟨before, after, hsplit, -⟩ := List.lookup_eq_some_iff.mp hlookup
    have hmem : (name, program) ∈ samples := by simp [hsplit]
    simp [hsamples _ hmem]

/-- **The command line agrees with the library.** Let the arguments be flags in any spelling and at
most one name, in any order and with any repetition, and let no program of the table be absent.

What the command does depends on the set of flags and on the name alone, where no name means
`hello`. With the flag for it, it lists the names of the samples in the order of the table.
Otherwise, a name that is not in the table is refused with nothing on the output. Otherwise the
sample is run as a program that is interpreted with the options that the flags stand for, whichever
sink these have: the output is the lines that the sink has received, also if the program fails, and
the status says whether it did; the error is shown with its kind and its message. The flag for the
log changes neither the output nor the status. With this flag, however, a program may be cut off
because it is nested too deeply for its records to be written out; then the output is the first of
its lines. -/
theorem perform_agrees_with_interpret (stamp : String) (passes : Nat) (samples : Samples)
    (hsamples : ∀ entry ∈ samples, entry.2.isNothing = false) {arguments : List String}
    {flags : List Flag} {name : Option String} (h : Arranged arguments flags name) :
    (∀ arguments' flags' name', Arranged arguments' flags' name' →
      (∀ f, f ∈ flags' ↔ f ∈ flags) → name'.getD "hello" = name.getD "hello" →
      perform stamp passes samples arguments' = perform stamp passes samples arguments) ∧
    (.list ∈ flags → perform stamp passes samples arguments =
      .ok { status := 0, output := unlines (samples.map Prod.fst) }) ∧
    (.list ∉ flags → name.getD "hello" ∉ samples.map Prod.fst →
      ∃ errors, perform stamp passes samples arguments = .ok { status := 2, output := "", errors }) ∧
    (.list ∉ flags → ∀ program, samples.lookup (name.getD "hello") = some program → ∀ sink,
      let run := interpret passes program none
        (some { sink, scoping := if .flat ∈ flags then .flat else .lexical,
                mathematics := flags.contains .mathematics })
      perform stamp passes samples arguments =
          Outcome.ofRun stamp (flags.contains .debug) sink (run {}) ∨
        .debug ∈ flags ∧
          CutOff ((run.after {}).linesTo sink) (perform stamp passes samples arguments)) ∧
    ∀ arguments' flags' name', Arranged arguments' flags' name' →
      (∀ f, f ∈ flags' ↔ f = .debug ∨ f ∈ flags) → name'.getD "hello" = name.getD "hello" →
      (perform stamp passes samples arguments').map (fun r => (r.status, r.output)) =
          (perform stamp passes samples arguments).map (fun r => (r.status, r.output)) ∨
        ∃ lines, CutOff lines (perform stamp passes samples arguments') := by
  have hcontains {flags flags' : List Flag} {f : Flag} (hf : f ∈ flags' ↔ f ∈ flags) :
      flags'.contains f = flags.contains f := by
    rw [Bool.eq_iff_iff, List.contains_iff_mem, List.contains_iff_mem, hf]
  have hsame (arguments' : List String) (flags' : List Flag) (name' : Option String)
      (h' : Arranged arguments' flags' name') (hflags : ∀ f, f ∈ flags' ↔ f ∈ flags)
      (hname : name'.getD "hello" = name.getD "hello") :
      perform stamp passes samples arguments' = perform stamp passes samples arguments := by
    have hrun : runSample stamp passes samples { sample := name', flags := flags' } =
        runSample stamp passes samples { sample := name, flags } :=
      runSample_congr (fun f => hcontains (hflags f)) hname
    rw [perform_of_arranged h', perform_of_arranged h, hcontains (hflags .list), hrun]
  refine ⟨hsame, fun hlist => ?_, fun hlist hunknown => ?_, fun hlist program hprogram sink => ?_,
    fun arguments' flags' name' h' hflags hname => ?_⟩
  · rw [perform_of_arranged h, if_pos (List.contains_iff_mem.mpr hlist)]
  · rw [perform_of_arranged h, if_neg (mt List.contains_iff_mem.mp hlist)]
    refine runSample_unknown ((find?_eq_lookup hsamples _).trans ?_)
    refine List.lookup_eq_none_iff.mpr fun entry hentry => bne_iff_ne.mpr fun heq => hunknown ?_
    exact List.mem_map.mpr ⟨entry, hentry, heq.symm⟩
  · have hfind : samples.find? (Request.sampleName { sample := name, flags }) = some program :=
      (find?_eq_lookup hsamples _).trans hprogram
    rw [perform_of_arranged h, if_neg (mt List.contains_iff_mem.mp hlist)]
    obtain ⟨houtcome, hlines, hrecords⟩ := interpret_standard passes program
      { sink, scoping := if .flat ∈ flags then .flat else .lexical,
        mathematics := flags.contains .mathematics }
    have hcases : runSample stamp passes samples _ = _ ∨ _ := runSample_cases hfind
    simp only [optionsOf, Request.has, List.contains_iff_mem] at hcases
    rw [hlines] at hcases
    refine hcases.imp_left fun hrun => hrun.trans ?_
    exact ofRun_congr stamp (flags.contains .debug) houtcome hlines hrecords
  · by_cases hdebug : .debug ∈ flags
    · have hflags' (f : Flag) : f ∈ flags' ↔ f ∈ flags :=
        (hflags f).trans (or_iff_right_of_imp fun hf => hf ▸ hdebug)
      rw [hsame arguments' flags' name' h' hflags' hname]
      exact .inl rfl
    · have hothers (f : Flag) (hf : f ≠ .debug) : flags'.contains f = flags.contains f :=
        hcontains ((hflags f).trans (or_iff_right hf))
      rw [perform_of_arranged h', perform_of_arranged h, hothers .list (by decide)]
      split
      · exact .inl rfl
      · refine runSample_log hothers hname (Bool.eq_false_iff.mpr ?_)
        exact mt List.contains_iff_mem.mp hdebug

/-! ### A table of two programs -/

namespace TwoSamples

/-- Prints a line and fails. -/
def failing : Node :=
  .program (.block [.print (.boolean true), .print (.unary "-" (.boolean true))])

/-- A program that does nothing and one that fails. -/
def samples : Samples := [("hello", .program (.block [])), ("failing", failing)]

/-- Flags in several spellings, one of them twice, around the name of a sample. -/
def arguments : List String := ["--pre", "--fl", "failing", "--flat"]

theorem arguments_arranged : Arranged arguments [.mathematics, .flat, .flat] (some "failing") := by
  refine .flag ⟨"--prelude", by decide, by decide, by decide⟩ ?_
  refine .flag ⟨"--flat", by decide, by decide, by decide⟩ (.name (by decide) ?_)
  exact .flag ⟨"--flat", by decide, by decide, by decide⟩ .nil

/-- The line that was printed before the failure is on the output, as if it had been collected
elsewhere, and the status is one. The flag for the log, which is given in a short spelling and
without a name, changes nothing about the sample that it stands for. -/
theorem perform_agrees_with_interpret_of_twoSamples :
    perform "now" 1 samples arguments =
        Outcome.ofRun "now" false (.collector 0)
          (interpret 1 failing none
            (some { sink := .collector 0, scoping := .flat, mathematics := true }) {}) ∧
      (perform "now" 1 samples arguments).map (fun r => (r.status, r.output)) =
        .ok (1, "true\n") ∧
      (perform "now" 1 samples ["--d"]).map (fun r => (r.status, r.output)) =
        (perform "now" 1 samples ["hello"]).map (fun r => (r.status, r.output)) := by
  have hsamples : ∀ entry ∈ samples, entry.2.isNothing = false := by
    simp [samples, failing, Node.program, Node.ofLabel, Node.isNothing]
  obtain ⟨-, -, -, hrun, -⟩ :=
    perform_agrees_with_interpret "now" 1 samples hsamples arguments_arranged
  have hperform := (hrun (by decide) failing rfl (.collector 0)).resolve_right
    fun h => absurd h.1 (by decide)
  obtain ⟨-, -, -, -, hlog⟩ := perform_agrees_with_interpret "now" 1 samples hsamples
    (.name (s := "hello") (by decide) .nil)
  have hdebug : Arranged ["--d"] [.debug] none :=
    .flag ⟨"--debug", by decide, by decide, by decide⟩ .nil
  have hsuccess : (perform "now" 1 samples ["--d"]).map (·.status) = .ok 0 := by
    rw [perform_of_arranged hdebug]
    rfl
  refine ⟨hperform, ?_, (hlog ["--d"] [.debug] none hdebug (by simp) rfl).resolve_right ?_⟩
  · rw [hperform]
    rfl
  · rintro ⟨lines, e, log, printed, -, -, hcut⟩
    rw [hcut] at hsuccess
    cases hsuccess

end TwoSamples

/-! ### A sample that is cut off by its log -/

/-- Calls a function at the bottom of a tower. -/
def deepCall : Node :=
  .program (.block
    [.function (.name "f") [] (.boolean true),
     .declaration (.name "y") ((Node.call (.name "f") []).inArrays 1995)])

/-- The world in which the tower of the sample is declared. -/
def deepCallWorld : World :=
  (exec 1 outermostLevels (.function (.name "f") [] (.boolean true)) 0).after
    ((freshWorld {}).noted (.interpreting .lexical))

/-- The sample declares the function and then ends as the tower does. -/
private theorem outcome_deepCall {need : Nat}
    (hfunction : execLogged need 1 outermostLevels (.function (.name "f") [] (.boolean true)) 0
      ((freshWorld {}).noted (.interpreting .lexical)) = .ok () deepCallWorld) :
    (interpretLogged need 1 deepCall none (some {})).outcome {} =
      ((execAll (execLogged need 1 outermostLevels) 0
        [.declaration (.name "y") ((Node.call (.name "f") []).inArrays 1995)]).outcome
          deepCallWorld).mapError Halt.leaveProgram := by
  have hprepare : prepareFrame none (some {}) {} = .ok 0 (freshWorld {}) := rfl
  have hscoping : ((freshWorld {}).store.options 0).scoping = .lexical := rfl
  rw [deepCall, outcome_interpretLogged hprepare, hscoping, outcome_execAll_cons hfunction]

/-- The status says whether the run has succeeded. -/
private theorem ofRun_status {x : Run Unit} {w : World} (stamp : String) (debug : Bool)
    (sink : Sink) :
    (x.outcome w = .ok () → (Outcome.ofRun stamp debug sink (x w)).map (·.status) = .ok 0) ∧
      ∀ e, x.outcome w = .error (.error e) →
        (Outcome.ofRun stamp debug sink (x w)).map (·.status) = .ok 1 := by
  unfold Run.outcome
  cases x w with
  | ok a v => exact ⟨fun _ => rfl, nofun⟩
  | error h v =>
    refine ⟨nofun, fun e he => ?_⟩
    cases he
    rfl

/-- Without the log the sample succeeds. With the log there are too few levels left to write out the
record of the call, and the status says that the sample has failed. -/
theorem perform_deepCall :
    (perform "now" 1 [("deep", deepCall)] ["deep"]).map (·.status) = .ok 0 ∧
      (perform "now" 1 [("deep", deepCall)] ["--debug", "deep"]).map (·.status) = .ok 1 := by
  have hlevels : outermostLevels = 11 + 5 * 1995 + 4 := rfl
  have hplain : perform "now" 1 [("deep", deepCall)] ["deep"] =
      Outcome.ofRun "now" false .standard (interpretLogged 0 1 deepCall none (some {}) {}) := by
    rw [perform_of_arranged (.name (s := "deep") (by decide) .nil), if_neg (by decide)]
    exact runSample_eq_ofRun rfl
  have hlogged : perform "now" 1 [("deep", deepCall)] ["--debug", "deep"] =
      Outcome.ofRun "now" true .standard
        (interpretLogged recordLevels 1 deepCall none (some {}) {}) := by
    rw [perform_of_arranged (.flag (f := .debug) ⟨"--debug", by decide, by decide, by decide⟩
      (.name (s := "deep") (by decide) .nil)), if_neg (by decide)]
    exact runSample_eq_ofRun rfl
  constructor
  · have hcall : (evalLogged 0 12 (.call (.name "f") []) 0).outcome deepCallWorld =
        .ok (.boolean true) := rfl
    rw [hplain]
    refine (ofRun_status _ _ _).1 ?_
    rw [outcome_deepCall rfl, execAll_tower_of_ok hlevels (by decide) "y" hcall rfl]
    rfl
  · have hcall : (evalLogged recordLevels 12 (.call (.name "f") []) 0).outcome deepCallWorld =
        .error .overflow := rfl
    rw [hlogged]
    refine (ofRun_status _ _ _).2 { cause := .nestedTooDeeply hostLimit } ?_
    rw [outcome_deepCall rfl, execAll_tower_of_error hlevels (by decide) "y" [] hcall]
    rfl

end Command
end Bella
