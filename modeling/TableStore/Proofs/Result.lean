import Mathlib.Data.List.Forall2

/-! Computations that may fail: when a sequence of them succeeds, and with what. -/

namespace TableStore

variable {α β ε δ : Type}

/-- Two computations succeed in sequence exactly if both do. -/
theorem bind_eq_ok_iff {first : Except ε α} {next : α → Except ε β} {result : β} :
    first >>= next = .ok result ↔ ∃ value, first = .ok value ∧ next value = .ok result := by
  -- A failure of the first computation is one of the sequence.
  cases first <;> simp [Bind.bind, Except.bind]

/-- A computation that is seen to succeed does so with some value. -/
theorem isOk_iff {result : Except ε α} : result.isOk = true ↔ ∃ value, result = .ok value := by
  -- The test looks at nothing but the constructor.
  cases result <;> simp [Except.isOk, Except.toBool]

/-- What is required is given exactly if it is there. -/
@[simp] theorem elim_eq_ok_iff {found : Option α} {error : ε} {value : α} :
    found.elim (Except.error error) Except.ok = .ok value ↔ found = some value := by
  -- What is missing is an error, and never a success.
  cases found <;> simp

/-- Another form of what succeeds does not change what fails. -/
theorem map_eq_ok_iff {form : α → β} {result : Except ε α} {value : β} :
    result.map form = .ok value ↔ ∃ first, result = .ok first ∧ form first = value := by
  -- An error is handed on as it is.
  cases result <;> simp [Except.map]

/-- What is required is given in another form exactly if it is there. -/
theorem elim_map_eq_ok_iff {found : Option α} {error : ε} {form : α → β} {value : β} :
    found.elim (Except.error error) (fun first => Except.ok (form first)) = .ok value ↔
      ∃ first, found = some first ∧ form first = value := by
  -- Only what is there is brought into the other form.
  cases found <;> simp

/-- Another wording of what fails does not change what succeeds. -/
theorem mapError_eq_ok_iff {result : Except ε α} {wording : ε → δ} {value : α} :
    result.mapError wording = .ok value ↔ result = .ok value := by
  -- A success is handed on as it is.
  cases result <;> simp [Except.mapError]

/-- The steps over a list succeed exactly if every one of them does. -/
theorem mapM_eq_ok_iff {step : α → Except ε β} {inputs : List α} {outputs : List β} :
    inputs.mapM step = .ok outputs ↔
      List.Forall₂ (fun input output => step input = .ok output) inputs outputs := by
  -- The outputs are built along with the inputs, so they stay quantified over.
  induction inputs generalizing outputs with
  | nil => simp [Pure.pure, Except.pure, eq_comm]
  | cons input inputs ih =>
    rw [List.mapM_cons, bind_eq_ok_iff]
    constructor
    · -- A success of all is one of the first step and one of the others.
      intro succeeded
      rcases succeeded with ⟨output, stepped, rest⟩
      obtain ⟨others, stepsRest, built⟩ := bind_eq_ok_iff.1 rest
      obtain rfl := Except.ok.inj built
      exact .cons stepped (ih.1 stepsRest)
    · -- And the two successes make up the whole.
      intro paired
      rcases paired with _ | ⟨stepped, steps⟩
      exact ⟨_, stepped, bind_eq_ok_iff.2 ⟨_, ih.2 steps, rfl⟩⟩

/-- The steps over a list fail only as one of them does. -/
theorem exists_of_mapM_eq_error {step : α → Except ε β} {inputs : List α} {error : ε}
    (failed : inputs.mapM step = .error error) : ∃ input ∈ inputs, step input = .error error := by
  induction inputs with
  | nil => simp [Pure.pure, Except.pure] at failed
  | cons input inputs ih =>
    rw [List.mapM_cons] at failed
    cases stepped : step input with
    | error first =>
      -- The first step has failed, and no other was made.
      obtain rfl : first = error := by simpa [stepped, Bind.bind, Except.bind] using failed
      exact ⟨input, List.mem_cons_self, stepped⟩
    | ok output =>
      have failedRest : inputs.mapM step = .error error := by
        cases rest : inputs.mapM step <;>
          simp_all [Bind.bind, Except.bind, Pure.pure, Except.pure]
      obtain ⟨other, among, stepped⟩ := ih failedRest
      exact ⟨other, List.mem_cons_of_mem input among, stepped⟩

/-- Steps that all succeed do so over a whole list. -/
theorem exists_mapM_eq_ok {step : α → Except ε β} {inputs : List α}
    (steps : ∀ input ∈ inputs, ∃ output, step input = .ok output) :
    ∃ outputs, inputs.mapM step = .ok outputs := by
  cases run : inputs.mapM step with
  | ok outputs => exact ⟨outputs, rfl⟩
  | error error =>
    -- A failure of the whole would be one of a step.
    obtain ⟨input, among, failed⟩ := exists_of_mapM_eq_error run
    obtain ⟨output, stepped⟩ := steps input among
    simp [stepped] at failed

/-- Steps that give the outputs of others in another form do so over a whole list. -/
theorem mapM_map {step : α → Except ε β} {other : α → Except ε δ} {form : δ → β}
    {inputs : List α} (same : ∀ input ∈ inputs, step input = (other input).map form) :
    inputs.mapM step = (inputs.mapM other).map (List.map form) := by
  induction inputs with
  | nil => rfl
  | cons input inputs ih =>
    rw [List.mapM_cons, List.mapM_cons, same input List.mem_cons_self,
      ih fun other among => same other (List.mem_cons_of_mem input among)]
    -- Either the first step fails, in both forms, or the others decide.
    cases other input with
    | error error => rfl
    | ok output => cases inputs.mapM other <;> rfl

/-- Things that are looked up one after another are all found, or the first that is not is told. -/
theorem mapM_lookup (find : α → Option β) (inputs : List α) :
    (inputs.mapM fun input => (find input).elim (Except.error input) Except.ok) =
      match inputs.find? fun input => (find input).isNone with
      | some missing => .error missing
      | none => .ok (inputs.filterMap find) := by
  induction inputs with
  | nil => rfl
  | cons input inputs ih =>
    rw [List.mapM_cons, ih]
    cases found : find input with
    | none =>
      -- Nothing after a missing input is looked up.
      simp [found, Bind.bind, Except.bind]
    | some output =>
      -- The first one is found, so that what is missing comes later, if anything is.
      have rest : (input :: inputs).find? (fun input => (find input).isNone) =
          inputs.find? fun input => (find input).isNone := by
        rw [List.find?_cons, found]
        rfl
      rw [rest, List.filterMap_cons_some found]
      cases inputs.find? fun input => (find input).isNone <;> rfl

/-- Every output is related to one of the inputs. -/
theorem exists_of_mem_forall₂ {related : α → β → Prop} {inputs : List α} {outputs : List β}
    (paired : List.Forall₂ related inputs outputs) {output : β} (member : output ∈ outputs) :
    ∃ input ∈ inputs, related input output := by
  induction paired with
  | nil => simp at member
  | @cons input first inputs outputs relates rest ih =>
    -- The output is that of the first input or of a later one.
    rcases List.mem_cons.1 member with rfl | member
    · exact ⟨input, List.mem_cons_self, relates⟩
    · obtain ⟨other, among, relates⟩ := ih member
      exact ⟨other, List.mem_cons_of_mem input among, relates⟩

/-- Every output of steps that succeed comes from one of the inputs. -/
theorem exists_of_mem_mapM {step : α → Except ε β} {inputs : List α} {outputs : List β}
    (steps : inputs.mapM step = .ok outputs) {output : β} (member : output ∈ outputs) :
    ∃ input ∈ inputs, step input = .ok output :=
  -- The outputs are paired with the inputs, in order.
  exists_of_mem_forall₂ (mapM_eq_ok_iff.1 steps) member

/-- Outputs that tell their inputs give all of them back. -/
theorem map_of_mapM_eq_ok {step : α → Except ε β} {back : β → α}
    (tells : ∀ {input output}, step input = .ok output → back output = input)
    {inputs : List α} {outputs : List β} (steps : inputs.mapM step = .ok outputs) :
    outputs.map back = inputs := by
  -- The claim is about the pairs of inputs and outputs, which the steps are forgotten for.
  have paired := mapM_eq_ok_iff.1 steps
  clear steps
  induction paired with
  | nil => rfl
  | cons stepped rest ih => rw [List.map_cons, ih, tells stepped]

/-- Steps that succeed give one output for each input. -/
theorem length_of_mapM_eq_ok {step : α → Except ε β} {inputs : List α} {outputs : List β}
    (steps : inputs.mapM step = .ok outputs) : outputs.length = inputs.length :=
  -- Paired lists have one length.
  (mapM_eq_ok_iff.1 steps).length_eq.symm

/-! ## What computations end in -/

/-- A computation ends in a value that meets one condition or in an error that meets another. -/
def Ends (good : α → Prop) (bad : ε → Prop) : Except ε α → Prop
  | .ok value => good value
  | .error error => bad error

namespace Ends

variable {good : β → Prop} {middle : α → Prop} {bad : ε → Prop} {first : Except ε α}

/-- What is required is good if it is there, and the error is bad. -/
theorem elim {found : Option α} {error : ε} (given : ∀ value, found = some value → middle value)
    (missing : bad error) : Ends middle bad (found.elim (.error error) .ok) := by
  -- What is missing ends in the error, and what is there is given as it is.
  cases found with
  | none => exact missing
  | some value => exact given value rfl

/-- A sequence ends well if its second part does after all that the first may end in. -/
theorem bind {next : α → Except ε β} (begins : Ends middle bad first)
    (goesOn : ∀ value, first = .ok value → middle value → Ends good bad (next value)) :
    -- An error of the first part ends the sequence, and a value goes on into the second.
    Ends good bad (first >>= next) := by
  cases first with
  | error error => exact begins
  | ok value => exact goesOn value rfl begins

/-- A computation that requires something ends as it does with it, or in the error. -/
theorem elim_bind {found : Option α} {error : ε} {next : α → Except ε β} (missing : bad error)
    (goesOn : ∀ value, found = some value → Ends good bad (next value)) :
    Ends good bad (found.elim (.error error) .ok >>= next) :=
  -- The requirement and what needs it are put together as a sequence.
  (elim (fun _ given => given) missing).bind fun value _ given => goesOn value given

/-- Another form of what succeeds. -/
theorem map {form : α → β} (ends : Ends middle bad first)
    (imp : ∀ value, middle value → good (form value)) : Ends good bad (first.map form) := by
  -- An error does not take part in the form.
  cases first with
  | error error => exact ends
  | ok value => exact imp value ends

/-- Another wording of what fails. -/
theorem mapError {wording : ε → δ} {worse : δ → Prop} (ends : Ends middle bad first)
    (imp : ∀ error, bad error → worse (wording error)) :
    Ends middle worse (first.mapError wording) := by
  -- A success does not take part in the wording.
  cases first with
  | error error => exact imp error ends
  | ok value => exact ends

/-- Steps over a list end well if every one of them does. -/
theorem mapM {step : α → Except ε β} {inputs : List α}
    (steps : ∀ input ∈ inputs, Ends good bad (step input)) :
    Ends (fun outputs => ∀ output ∈ outputs, good output) bad (inputs.mapM step) := by
  -- The first failure is one of a single step, and every output is that of one.
  cases run : inputs.mapM step with
  | error error =>
    obtain ⟨input, among, stepped⟩ := exists_of_mapM_eq_error run
    have ends := steps input among
    rwa [stepped] at ends
  | ok outputs =>
    intro output member
    obtain ⟨input, among, stepped⟩ := exists_of_mem_mapM run member
    have ends := steps input among
    rwa [stepped] at ends

/-- Steps that carry a state along a list end well if every one of them keeps it good. -/
theorem foldlM {step : β → α → Except ε β} {inputs : List α} {start : β} (begins : good start)
    (steps : ∀ state, good state → ∀ input ∈ inputs, Ends good bad (step state input)) :
    Ends good bad (inputs.foldlM step start) := by
  -- Each step leaves another state behind, so the state at the start stays quantified over.
  induction inputs generalizing start with
  | nil => exact begins
  | cons input inputs ih =>
    rw [List.foldlM_cons]
    refine (steps start begins input List.mem_cons_self).bind fun state _ kept => ?_
    exact ih kept fun state kept other among =>
      steps state kept other (List.mem_cons_of_mem input among)

end Ends

end TableStore
