import Mathlib.Data.List.InsertIdx
import Stackwright.Proofs.History
import Stackwright.Proofs.Printing
import Stackwright.Proofs.Traps

/-!
# What the console prints

The output of a machine only grows. A step that succeeds may add to it, and a step that fails
leaves it alone. So a console that has printed all there is, and looks again after each step that
succeeds, never misses a word and never prints one again, and at whatever step the run ends there
is nothing left to print (`exists_echoed_runFrom`).

Observers do not get in each other's way. A run with several of them prints in *glances*: each time
that they look, every observer adds its lines to those of the ones before it. Without one of them
the run is the same but for this one's lines (`exists_weaves`). This is how the lines of a console
among other observers are told from theirs.
-/

namespace Stackwright

/-! ## Observers side by side -/

theorem snd_eachInTurn {σ : Type} (look : σ → σ × List String) (observers : List σ) :
    (eachInTurn look observers).2 = observers.flatMap fun o => (look o).2 := by
  induction observers with
  | nil => rfl
  | cons o rest ih => exact congrArg ((look o).2 ++ ·) ih

/-- What is printed at one look by an observer, and by those before and after it. -/
structure Glance where
  /-- the lines of the observers before it -/
  earlier : List String
  /-- its own lines -/
  own : List String
  /-- the lines of the observers after it -/
  later : List String

namespace Glance

/-- All lines. -/
def lines (glance : Glance) : List String := glance.earlier ++ (glance.own ++ glance.later)

/-- The lines of the others. -/
def others (glance : Glance) : List String := glance.earlier ++ glance.later

/-- Where some lines were printed at each glance, there are more after one glance more. -/
theorem toList_append {printed : Array String} {glances : List Glance} {glance : Glance}
    {more : List String} (whose : Glance → List String)
    (before : printed.toList = glances.flatMap whose) (now : more = whose glance) :
    (printed ++ more).toList = (glances ++ [glance]).flatMap whose := by
  rw [Array.toList_appendList, before, now, List.flatMap_append, List.flatMap_singleton]

end Glance

/-- The run of several observers, the run without the one at a place, and the run of that one alone.
They end alike, with the same machine and with the observers in the same states, and what they print
differs only in whose lines are there. -/
structure Weaves {σ : Type} (place : Nat) (glances : List Glance) (whole rest : Run (List σ))
    (alone : Run σ) : Prop where
  ending_whole : whole.ending = alone.ending
  ending_rest : rest.ending = alone.ending
  machine_whole : whole.machine = alone.machine
  machine_rest : rest.machine = alone.machine
  observer_rest : rest.observer = whole.observer.eraseIdx place
  observer_alone : whole.observer[place]? = some alone.observer
  printed_whole : whole.printed.toList = glances.flatMap Glance.lines
  printed_rest : rest.printed.toList = glances.flatMap Glance.others
  printed_alone : alone.printed.toList = glances.flatMap Glance.own

section Weaves

variable {σ : Type} {place : Nat} {observers : List σ} {o : σ}

/-- Several observers look as each of them does alone. -/
theorem exists_glance (there : observers[place]? = some o) (look : σ → σ × List String) :
    ∃ glance : Glance, (eachInTurn look observers).2 = glance.lines ∧
      (eachInTurn look (observers.eraseIdx place)).2 = glance.others ∧
      (look o).2 = glance.own ∧
      (eachInTurn look (observers.eraseIdx place)).1 =
        (eachInTurn look observers).1.eraseIdx place ∧
      (eachInTurn look observers).1[place]? = some (look o).1 := by
  obtain ⟨within, rfl⟩ := List.getElem?_eq_some_iff.mp there
  refine ⟨⟨(observers.take place).flatMap fun o => (look o).2, (look observers[place]).2,
    (observers.drop (place + 1)).flatMap fun o => (look o).2⟩, ?_, ?_, rfl, ?_, ?_⟩
  · have split : observers =
        observers.take place ++ observers[place] :: observers.drop (place + 1) := by
      rw [← List.drop_eq_getElem_cons within, List.take_append_drop]
    calc (eachInTurn look observers).2
        = observers.flatMap fun o => (look o).2 := snd_eachInTurn look observers
      _ = (observers.take place ++ observers[place] :: observers.drop (place + 1)).flatMap
          fun o => (look o).2 := congrArg _ split
      _ = _ := List.flatMap_append.trans (congrArg _ List.flatMap_cons)
  · rw [snd_eachInTurn, List.eraseIdx_eq_take_drop_succ, List.flatMap_append]
    rfl
  · rw [fst_eachInTurn, fst_eachInTurn, List.eraseIdx_map]
  · rw [fst_eachInTurn, List.getElem?_map, there]
    rfl

/-- When all have looked once more there is one glance more. -/
theorem Weaves.exists_look {glances : List Glance} {m : Machine} {ending : Ending}
    {p q r : Array String}
    (h : Weaves place glances ⟨ending, m, observers, p⟩ ⟨ending, m, observers.eraseIdx place, q⟩
      ⟨ending, m, o, r⟩)
    (look : σ → σ × List String) (m' : Machine) (ending' : Ending) :
    ∃ glances, Weaves place glances
      ⟨ending', m', (eachInTurn look observers).1, p ++ (eachInTurn look observers).2⟩
      ⟨ending', m', (eachInTurn look (observers.eraseIdx place)).1,
        q ++ (eachInTurn look (observers.eraseIdx place)).2⟩
      ⟨ending', m', (look o).1, r ++ (look o).2⟩ := by
  obtain ⟨glance, whole, rest, alone, left, kept⟩ := exists_glance h.observer_alone look
  exact ⟨glances ++ [glance], rfl, rfl, rfl, rfl, left, kept,
    Glance.toList_append _ h.printed_whole whole, Glance.toList_append _ h.printed_rest rest,
    Glance.toList_append _ h.printed_alone alone⟩

end Weaves

namespace Machine

section Weaves

variable {σ : Type} [Observer σ] {m : Machine} {place : Nat} {observers : List σ} {o : σ}

/-- From machines that were watched side by side, runs go on side by side. -/
theorem exists_weaves_runFrom {glances : List Glance} {p q r : Array String} (fuel : Nat)
    (h : Weaves place glances ⟨.brokenOff, m, observers, p⟩
      ⟨.brokenOff, m, observers.eraseIdx place, q⟩ ⟨.brokenOff, m, o, r⟩) :
    ∃ glances, Weaves place glances (runFrom fuel m observers p)
      (runFrom fuel m (observers.eraseIdx place) q) (runFrom fuel m o r) := by
  induction fuel generalizing m observers o p q r glances with
  | zero => exact ⟨glances, h⟩
  | succ fuel ih =>
    cases stepped : step m with
    | error e m' =>
      rw [runFrom_of_error _ _ stepped, runFrom_of_error _ _ stepped, runFrom_of_error _ _ stepped]
      exact ⟨glances, rfl, rfl, rfl, rfl, h.observer_rest, h.observer_alone, h.printed_whole,
        h.printed_rest, h.printed_alone⟩
    | ok executed m' =>
      by_cases halted : m'.status = .halted
      · rw [runFrom_of_halt _ _ stepped halted, runFrom_of_halt _ _ stepped halted,
          runFrom_of_halt _ _ stepped halted]
        exact h.exists_look _ m' .halted
      · rw [runFrom_of_going _ _ stepped halted, runFrom_of_going _ _ stepped halted,
          runFrom_of_going _ _ stepped halted]
        obtain ⟨glances, next⟩ := h.exists_look (Observer.after m'.steps executed m') m' .brokenOff
        have left : (Observer.after m'.steps executed m' (observers.eraseIdx place)).1 =
            (Observer.after m'.steps executed m' observers).1.eraseIdx place := next.observer_rest
        rw [left]
        exact ih (left ▸ next)

/-- A loaded machine is shown to the observer, and then it runs. -/
theorem runObserved_of_loaded (loaded : m.status = .loaded) (fuel : Nat) (observer : σ) :
    runObserved fuel m observer =
      runFrom fuel m (Observer.start m observer).1
        ((#[] : Array String) ++ (Observer.start m observer).2) := by
  rw [runObserved, loaded, List.toArray_appendList]
  rfl

/-- **Observers do not get in each other's way.** A run with several observers is the run without
one of them, and the lines of this one are those that it prints alone. -/
theorem exists_weaves (loaded : m.status = .loaded) (there : observers[place]? = some o)
    (fuel : Nat) :
    ∃ glances, Weaves place glances (runObserved fuel m observers)
      (runObserved fuel m (observers.eraseIdx place)) (runObserved fuel m o) := by
  have unseen : Weaves place [] ⟨.brokenOff, m, observers, #[]⟩
      ⟨.brokenOff, m, observers.eraseIdx place, #[]⟩ ⟨.brokenOff, m, o, #[]⟩ :=
    ⟨rfl, rfl, rfl, rfl, rfl, there, rfl, rfl, rfl⟩
  obtain ⟨glances, seen⟩ := unseen.exists_look (Observer.start m) m .brokenOff
  have left : (Observer.start m (observers.eraseIdx place)).1 =
      (Observer.start m observers).1.eraseIdx place := seen.observer_rest
  rw [runObserved_of_loaded loaded, runObserved_of_loaded loaded _ o,
    runObserved_of_loaded loaded _ (observers.eraseIdx place), left]
  exact exists_weaves_runFrom fuel (left ▸ seen)

end Weaves

end Machine

/-! ## Sinks and consoles -/

namespace Sink

/-- Write some words, one after the other. -/
def writeAll (sink : Sink) (words : List Word) : Sink :=
  words.foldl (fun sink word => sink.write word.text) sink

/-- The sink is open and refuses none of the next `n` lines. -/
def Accepts (sink : Sink) (n : Nat) : Prop :=
  sink.isOpen ∧ ∀ i < n, sink.refusesAt ≠ some (sink.lines.size + i)

instance (sink : Sink) (n : Nat) : Decidable (sink.Accepts n) :=
  inferInstanceAs (Decidable (_ ∧ _))

/-- A sink that accepts the lines has them all in the end, and it is still open. -/
theorem writeAll_of_accepts {sink : Sink} {words : List Word} (h : sink.Accepts words.length) :
    (sink.writeAll words).isOpen ∧ (sink.writeAll words).refusesAt = sink.refusesAt ∧
      (sink.writeAll words).lines.toList = sink.lines.toList ++ words.map Word.text := by
  induction words generalizing sink with
  | nil => exact ⟨h.1, rfl, (List.append_nil _).symm⟩
  | cons word words ih =>
    obtain ⟨isOpen, accepted⟩ := h
    have written : sink.write word.text = { sink with lines := sink.lines.push word.text } := by
      have room : sink.refusesAt ≠ some sink.lines.size := accepted 0 (Nat.zero_lt_succ _)
      rw [write, isOpen, if_neg (by decide), if_neg room]
    have next : (sink.write word.text).Accepts words.length := by
      rw [written]
      refine ⟨isOpen, fun i within => ?_⟩
      have place : sink.lines.size + (i + 1) = (sink.lines.push word.text).size + i := by
        rw [Array.size_push]
        omega
      exact place ▸ accepted (i + 1) (Nat.succ_lt_succ within)
    obtain ⟨stays, refuses, lines⟩ := ih next
    refine ⟨stays, refuses.trans (by rw [written]), lines.trans ?_⟩
    rw [written, Array.toList_push, List.append_assoc]
    rfl

end Sink

namespace Console

/-- A word is printed in decimal. To make it stand out, it is red and bold, with a mark before it. -/
theorem line_eq (styled : Bool) (word : Word) :
    line styled word =
      if styled then " > \x1b[31m\x1b[1m" ++ toString word.toInt ++ "\x1b[39m\x1b[22m"
      else toString word.toInt := by
  rw [line, Word.text_eq_toString, Text.Style.paint, String.append_assoc, String.append_assoc,
    ← String.append_assoc]
  rfl

/-- A word makes one line. -/
theorem isLine_line (styled : Bool) (word : Word) : Text.IsLine (line styled word) := by
  obtain ⟨noFeed, noReturn⟩ : Text.IsLine (" ".intercalate [word.text]) :=
    Token.isLine_intercalate (List.forall_mem_singleton.mpr (Token.isWhole_text word))
  rw [String.intercalate_singleton] at noFeed noReturn
  cases styled with
  | false => exact ⟨noFeed, noReturn⟩
  | true =>
    constructor <;> simp [line, Text.Style.paint, Text.Style.codes, noFeed, noReturn]

/-- The console when it has printed some words more. -/
def echo (console : Console) (words : List Word) : Console where
  styled := console.styled
  printed := console.printed + words.length
  copy := console.copy.map fun sink => sink.writeAll words

theorem echo_nil (console : Console) : console.echo [] = console := by
  obtain ⟨styled, printed, copy⟩ := console
  cases copy <;> rfl

theorem echo_append (console : Console) (words words' : List Word) :
    (console.echo words).echo words' = console.echo (words ++ words') := by
  simp [echo, Sink.writeAll, Nat.add_assoc, Function.comp_def]

/-- A console that has printed all of the output prints just what was added to it. -/
theorem catchUp_eq {console : Console} {seen words : List Word} {output : Array Word}
    (tracks : console.printed = seen.length) (grown : output.toList = seen ++ words) :
    console.catchUp output = (console.echo words, words.map (line console.styled)) := by
  have size : output.size = console.printed + words.length := by
    rw [tracks, ← List.length_append, ← grown, Array.length_toList]
  have news : (output.extract console.printed output.size).toList = words := by
    rw [Array.toList_extract, List.extract_eq_take_drop, size, Nat.add_sub_cancel_left, grown,
      tracks, List.drop_left, List.take_length]
  rw [catchUp, news, size]
  rfl

end Console

/-! ## Output -/

namespace Machine

variable {m m' : Machine}

theorem output_prefix_of_underway (way : Underway m m') :
    m.output.toList <+: m'.output.toList := by
  induction way with
  | refl => exact List.prefix_rfl
  | @tail m₁ m₂ _ move ih =>
    refine ih.trans ?_
    cases move with
    | fetch h =>
      obtain ⟨-, rfl⟩ := fetch_eq_ok_iff.mp h
      exact List.prefix_rfl
    | push h =>
      obtain ⟨-, rfl⟩ := push_eq_ok_iff.mp h
      exact List.prefix_rfl
    | pop h =>
      obtain ⟨-, rfl⟩ := pop_eq_ok_iff.mp h
      exact List.prefix_rfl
    | write h =>
      obtain ⟨-, rfl⟩ := writeCell_eq_ok_iff.mp h
      exact List.prefix_rfl
    | jump address => exact List.prefix_rfl
    | emit w =>
      rw [Array.toList_push]
      exact List.prefix_append ..

/-- A step that succeeds takes no word back. -/
theorem output_prefix_of_step {executed : Executed} (h : step m = .ok executed m') :
    m.output.toList <+: m'.output.toList := by
  obtain ⟨op, m₁, -, -, executes, -, rfl⟩ := exists_execute_of_step h
  have grown := output_prefix_of_underway (underway_of_execute executes)
  exact grown

/-- A step that fails writes no word out. -/
theorem output_of_error (bounded : m.Bounded) {e : MachineError} (h : step m = .error e m') :
    m'.output = m.output := by
  by_cases active : m.Active
  · obtain ⟨fault, rfl⟩ := exists_fault_of_step active h
    obtain ⟨pc, sp, -, -, rfl, -⟩ := exists_moved_on_of_fault bounded h
    rfl
  · rw [step_of_not_active active] at h
    cases h
    rfl

/-! ## Runs with a console -/

variable {τ : Type} {config : MachineConfig}

/-- A run that was begun at `m`, with the lines `printed` before it, has written out some words, and
the console printed these. -/
structure Echoed (m : Machine) (console : Console) (printed : Array String) (words : List Word)
    (run : Run (τ ⊕ Console)) : Prop where
  output_eq : run.machine.output.toList = m.output.toList ++ words
  observer_eq : run.observer = .inr (console.echo words)
  printed_eq : run.printed.toList = printed.toList ++ words.map (Console.line console.styled)

namespace Echoed

variable {console : Console} {printed : Array String} {words : List Word}
  {run : Run (τ ⊕ Console)}

/-- Nothing was written out. -/
theorem nil (output : run.machine.output = m.output) (observer : run.observer = .inr console)
    (lines : run.printed = printed) : Echoed m console printed [] run := by
  refine ⟨?_, ?_, ?_⟩
  · rw [output, List.append_nil]
  · rw [observer, Console.echo_nil]
  · rw [lines, List.map_nil, List.append_nil]

/-- Some words were written out before the others. -/
theorem cons {earlier : List Word} (grown : m.output.toList ++ earlier = m'.output.toList)
    (h : Echoed m' (console.echo earlier)
      (printed ++ earlier.map (Console.line console.styled)) words run) :
    Echoed m console printed (earlier ++ words) run := by
  refine ⟨?_, ?_, ?_⟩
  · rw [h.output_eq, ← grown, List.append_assoc]
  · rw [h.observer_eq, Console.echo_append]
  · rw [h.printed_eq, Array.toList_appendList, List.append_assoc, List.map_append]
    rfl

end Echoed

variable [Observer τ]

/-- From a machine whose output the console has printed, a run prints what is written out in it, and
nothing else. -/
theorem exists_echoed_runFrom (order : Invariant config m) {console : Console}
    (tracks : console.printed = m.output.toList.length) (fuel : Nat) (printed : Array String) :
    ∃ words, Echoed m console printed words
      (runFrom fuel m (.inr console : τ ⊕ Console) printed) := by
  induction fuel generalizing m console printed with
  | zero => exact ⟨[], .nil rfl rfl rfl⟩
  | succ fuel ih =>
    cases stepped : step m with
    | error e m' =>
      rw [runFrom_of_error _ _ stepped]
      exact ⟨[], .nil (output_of_error order.bounded stepped) rfl rfl⟩
    | ok executed m' =>
      have order' : Invariant config m' := by
        have next := order.step
        rwa [after, stepped] at next
      obtain ⟨words, grown⟩ := output_prefix_of_step stepped
      have caughtUp := Console.catchUp_eq tracks grown.symm
      have seen : Observer.after m'.steps executed m' (.inr console : τ ⊕ Console) =
          (.inr (console.echo words), words.map (Console.line console.styled)) :=
        congrArg (fun looked => (Sum.inr looked.1, looked.2)) caughtUp
      have tracks' : (console.echo words).printed = m'.output.toList.length := by
        rw [← grown, List.length_append, ← tracks]
        rfl
      by_cases halted : m'.status = .halted
      · rw [runFrom_of_halt _ _ stepped halted, seen]
        exact ⟨words ++ [], .cons grown (.nil rfl rfl rfl)⟩
      · rw [runFrom_of_going _ _ stepped halted, seen]
        obtain ⟨more, echoed⟩ := ih order' tracks'
          (printed ++ words.map (Console.line console.styled))
        exact ⟨words ++ more, .cons grown echoed⟩

/-- What a run prints and leaves of a console that is among its observers, compared with the run
`rest` of the same machine that the others watch without it. -/
structure PrintsOutput (place : Nat) (console console' : Console)
    (run rest : Run (List (τ ⊕ Console))) : Prop where
  /-- the console is in its place -/
  there : run.observer[place]? = some (.inr console')
  styled_eq : console'.styled = console.styled
  /-- the console prints the words of the output in decimal, each once and in order, plain or with
  a mark, red and bold; and the other observers print what they print without it -/
  printed_eq : ∃ glances : List Glance, run.printed.toList = glances.flatMap Glance.lines ∧
    (glances.flatMap Glance.own = run.machine.output.toList.map fun word =>
      if console.styled then " > \x1b[31m\x1b[1m" ++ toString word.toInt ++ "\x1b[39m\x1b[22m"
      else toString word.toInt) ∧
    rest.printed.toList = glances.flatMap Glance.others
  /-- each word is on a line of its own -/
  isLine : ∀ word ∈ run.machine.output.toList, Text.IsLine (Console.line console.styled word)
  /-- the console makes no difference to anything else -/
  ending_eq : rest.ending = run.ending
  machine_eq : rest.machine = run.machine
  observer_eq : rest.observer = run.observer.eraseIdx place
  /-- a console without a sink gets none -/
  copy_none : console.copy = none → console'.copy = none
  /-- a sink that accepts all lines gets the words of the output, each once and in order -/
  copy_some : ∀ sink, console.copy = some sink → sink.Accepts run.machine.output.size →
    ∃ sink', console'.copy = some sink' ∧ sink'.isOpen ∧ sink'.refusesAt = sink.refusesAt ∧
      sink'.lines.toList = sink.lines.toList ++
        run.machine.output.toList.map fun word => toString word.toInt

/-- A run starts with the first word of the output, whatever the console printed before. -/
theorem exists_printsOutput (reachable : Reachable config m) (loaded : m.status = .loaded)
    {observers : List (τ ⊕ Console)} {place : Nat} {console : Console}
    (there : observers[place]? = some (.inr console)) (fuel : Nat) :
    ∃ console', PrintsOutput place console console' (runObserved fuel m observers)
      (runObserved fuel m (observers.eraseIdx place)) := by
  have order := reachable.invariant
  obtain ⟨glances, weaves⟩ := exists_weaves loaded there fuel
  have unwritten : m.output.toList = [] := by rw [(order.unstarted (.inr loaded)).output_eq]
  have tracks : { console with printed := 0 }.printed = m.output.toList.length :=
    (congrArg List.length unwritten).symm
  obtain ⟨words, echoed⟩ : ∃ words, Echoed m { console with printed := 0 } #[] words
      (runObserved fuel m (.inr console : τ ⊕ Console)) := by
    rw [runObserved_of_loaded loaded]
    exact exists_echoed_runFrom order tracks fuel #[]
  have output : (runObserved fuel m observers).machine.output.toList = words := by
    rw [weaves.machine_whole, echoed.output_eq, unwritten, List.nil_append]
  refine ⟨{ console with printed := 0 }.echo words, ?_, rfl,
    ⟨glances, weaves.printed_whole, ?_, weaves.printed_rest⟩,
    fun word _ => Console.isLine_line .., ?_, ?_, weaves.observer_rest, ?_, ?_⟩
  · rw [weaves.observer_alone, echoed.observer_eq]
  · rw [← weaves.printed_alone, echoed.printed_eq, output]
    exact List.map_congr_left fun word _ => Console.line_eq console.styled word
  · rw [weaves.ending_rest, weaves.ending_whole]
  · rw [weaves.machine_rest, weaves.machine_whole]
  · intro noCopy
    rw [Console.echo, noCopy]
    rfl
  · intro sink isCopy accepts
    rw [← Array.length_toList, output] at accepts
    refine ⟨sink.writeAll words, ?_, ?_⟩
    · rw [Console.echo, isCopy]
      rfl
    · rw [output, ← funext Word.text_eq_toString]
      exact Sink.writeAll_of_accepts accepts

/-- **The console prints each word once.** Whatever watches a loaded machine besides the console,
and however the run ends, the console has printed just the output of the machine, word for word and
in order, and its sink has the same words if it accepts them. Then the same console can watch
another machine, and it prints the output of that one from the first word on. -/
theorem console_prints_output (reachable : Reachable config m) (loaded : m.status = .loaded)
    {observers : List (τ ⊕ Console)} {place : Nat} {console : Console}
    (there : observers[place]? = some (.inr console)) (fuel : Nat) :
    ∃ console', PrintsOutput place console console' (runObserved fuel m observers)
        (runObserved fuel m (observers.eraseIdx place)) ∧
      ∀ {config' : MachineConfig} {m' : Machine}, Reachable config' m' → m'.status = .loaded →
        ∀ {observers' : List (τ ⊕ Console)} {place' : Nat},
          observers'[place']? = some (.inr console') → ∀ fuel', ∃ console'',
            PrintsOutput place' console' console'' (runObserved fuel' m' observers')
              (runObserved fuel' m' (observers'.eraseIdx place')) := by
  obtain ⟨console', prints⟩ := exists_printsOutput reachable loaded there fuel
  exact ⟨console', prints, fun reachable' loaded' _ _ there' fuel' =>
    exists_printsOutput reachable' loaded' there' fuel'⟩

/-- A machine that was loaded with a program which writes the word -2 and then comes to a word that
is no operation. -/
def abrupt : Machine := after (load [1, -2, 21, 22]) (fresh ⟨9, none⟩)

/-- A console that printed three words in an earlier run, and copies words to a sink. -/
def copying : Console := ⟨true, 3, some .accepting⟩

/-- A journal and this console. -/
def audience : List (Journal ⊕ Console) := [.inl .empty, .inr copying]

theorem console_prints_output_abrupt :
    Reachable ⟨9, none⟩ abrupt ∧ abrupt.status = .loaded ∧
      audience[1]? = some (.inr copying) ∧ Reachable ⟨8, none⟩ terse ∧ terse.status = .loaded ∧
      (runObserved 9 abrupt audience).ending = .failed (.fault ⟨.invalidOpcode 22, 3⟩) ∧
      ∃ console' console'' sink,
        PrintsOutput 1 copying console' (runObserved 9 abrupt audience)
          (runObserved 9 abrupt (audience.eraseIdx 1)) ∧
        " > \x1b[31m\x1b[1m-2\x1b[39m\x1b[22m" ∈
          (runObserved 9 abrupt audience).printed.toList ∧
        PrintsOutput 0 console' console''
          (runObserved 9 terse [(.inr console' : Journal ⊕ Console)]) (runObserved 9 terse []) ∧
        console''.copy = some sink ∧ sink.lines.toList = ["-2", "7"] := by
  have reachable : Reachable ⟨9, none⟩ abrupt := .load _ (.made rfl)
  have reachable' : Reachable ⟨8, none⟩ terse := .load _ (.made rfl)
  have loaded : abrupt.status = .loaded := by decide +kernel
  have loaded' : terse.status = .loaded := by decide +kernel
  have ending : (runObserved 9 abrupt audience).ending =
      .failed (.fault ⟨.invalidOpcode 22, 3⟩) := by decide +kernel
  have output : (runObserved 9 abrupt audience).machine.output = #[-2] := by decide +kernel
  have output' : (runObserved 9 terse ([] : List (Journal ⊕ Console))).machine.output = #[7] := by
    decide +kernel
  have there : audience[1]? = some (.inr copying) := rfl
  obtain ⟨console', prints, again⟩ := console_prints_output reachable loaded there 9
  have there' : [(.inr console' : Journal ⊕ Console)][0]? = some (.inr console') := rfl
  obtain ⟨console'', prints'⟩ := again reachable' loaded' there' 9
  have output'' :
      (runObserved 9 terse [(.inr console' : Journal ⊕ Console)]).machine.output = #[7] :=
    (congrArg Machine.output prints'.machine_eq).symm.trans output'
  have accepts : Sink.accepting.Accepts (runObserved 9 abrupt audience).machine.output.size := by
    rw [output]
    decide
  obtain ⟨sink, copies, isOpen, refuses, lines⟩ := prints.copy_some _ rfl accepts
  obtain ⟨sink', copies', -, -, lines'⟩ := prints'.copy_some sink copies
    ⟨isOpen, fun _ _ => by rw [refuses]; nofun⟩
  refine ⟨reachable, loaded, there, reachable', loaded', ending, console', console'', sink', prints,
    ?_, prints', copies', ?_⟩
  · obtain ⟨glances, printed, own, -⟩ := prints.printed_eq
    rw [output] at own
    have shown : " > \x1b[31m\x1b[1m-2\x1b[39m\x1b[22m" ∈ glances.flatMap Glance.own :=
      own ▸ List.mem_singleton.mpr rfl
    obtain ⟨glance, mem, there⟩ := List.mem_flatMap.mp shown
    rw [printed]
    exact List.mem_flatMap.mpr ⟨glance, mem,
      List.mem_append_right _ (List.mem_append_left _ there)⟩
  · rw [lines', lines, output, output'']
    rfl

end Machine

end Stackwright
