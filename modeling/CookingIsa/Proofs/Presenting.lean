import Mathlib
import CookingIsa.Proofs.Collecting
import CookingIsa.Proofs.FaultKinds
import CookingIsa.Proofs.InBounds

/-!
# Presenting a dish that must be complete

Where a missing ingredient is a fault, a dish is presented exactly if everything was collected
before, and else the fault names what is missing first (`present_after_run`). Nothing is ever taken
out of a basket, so a session that has presented its dish never lacks an ingredient again.
-/

namespace CookingIsa

theorem Ingredient.getElem?_all_eq_some_iff {i : Ingredient} {n : Nat} :
    all[n]? = some i ↔ n = i.index := by
  constructor
  · intro h
    rcases n with _ | _ | _ | _ | _ | n <;> simp [all] at h <;> subst h <;> rfl
  · rintro rfl
    cases i <;> rfl

theorem Ingredient.eq_of_index_eq {i j : Ingredient} (h : i.index = j.index) : i = j := by
  have hi := getElem?_all_eq_some_iff.2 (rfl : i.index = i.index)
  rw [h, getElem?_all_eq_some_iff.2 rfl] at hi
  exact (Option.some.inj hi).symm

theorem Ingredient.eq_of_first {P : Ingredient → Prop} {i j : Ingredient} (hi : ¬ P i)
    (hbeforei : ∀ k, k.index < i.index → P k) (hj : ¬ P j)
    (hbeforej : ∀ k, k.index < j.index → P k) : i = j := by
  have hij : ¬ i.index < j.index := fun hlt => hi (hbeforej i hlt)
  have hji : ¬ j.index < i.index := fun hlt => hj (hbeforei j hlt)
  exact eq_of_index_eq (by omega)

namespace Basket

variable {b : Basket} {i : Ingredient}

theorem missing?_eq_some_iff :
    b.missing? = some i ↔ b.get? i = none ∧ ∀ j, j.index < i.index → b.get? j ≠ none := by
  have hindex : ∀ j : Ingredient, Ingredient.all[j.index]? = some j :=
    fun _ => Ingredient.getElem?_all_eq_some_iff.2 rfl
  simp only [missing?, List.find?_eq_some_iff_getElem, Option.isNone_iff_eq_none,
    ← Option.isSome_iff_ne_none]
  refine and_congr_right fun _ => ?_
  constructor
  · rintro ⟨n, hn, hi, hbefore⟩ j hj
    obtain rfl := Ingredient.getElem?_all_eq_some_iff.1 (List.getElem?_eq_some_iff.2 ⟨hn, hi⟩)
    obtain ⟨hlt, hget⟩ := List.getElem?_eq_some_iff.1 (hindex j)
    simpa [hget] using hbefore j.index hj
  · intro h
    obtain ⟨hlt, hget⟩ := List.getElem?_eq_some_iff.1 (hindex i)
    refine ⟨_, hlt, hget, fun n hn => ?_⟩
    have hj := Ingredient.getElem?_all_eq_some_iff.1 (List.getElem?_eq_getElem (hn.trans hlt))
    simpa using h _ (hj ▸ hn)

theorem dish_eq_error_iff {policy : UnchosenPolicy} :
    b.dish policy = .error i ↔ policy = .fault ∧ b.missing? = some i := by
  cases policy <;> rcases h : b.missing? with _ | j <;> simp [dish, h]

theorem eq_presentation_of_dish {policy : UnchosenPolicy} {line : String}
    (h : b.dish policy = .ok line) : line = b.presentation := by
  unfold dish at h
  split at h
  · cases h
  · exact (Except.ok.inj h).symm

theorem dish_empty : b.dish .empty = .ok b.presentation := rfl

theorem get?_ne_none_of_dish {line : String} (h : b.dish .fault = .ok line) (i : Ingredient) :
    b.get? i ≠ none := by
  rcases hmissing : b.missing? with _ | j
  · exact b.isComplete_iff.1 (by simp [isComplete, hmissing]) i
  · rw [dish_eq_error_iff.2 ⟨rfl, hmissing⟩] at h
    cases h

end Basket

namespace Session

variable {s : Session} {w : Word} {d : Decoding}

theorem step_present (hd : s.instructions.decode? w = some d)
    (hop : d.instruction.operation = .present) (m : Machine ScriptedConsole) :
    match s.basket.dish s.policy.unchosen with
    | .error i => (s.step w m).result = .error (.fault (.unchosen i)) ∧
        (s.step w m).machine.console = m.console
    | .ok line => (s.step w m).result = .ok .next ∧
        (s.step w m).machine.console = { m.console with output := m.console.output ++ [line] } := by
  obtain ⟨hresult, -, hmachine⟩ := step_of_decode? hd m
  rw [hresult, hmachine, Machine.console_note, hop]
  simp only [Operation.run, Operation.runPresent]
  rcases s.basket.dish s.policy.unchosen with i | line
  · exact ⟨rfl, rfl⟩
  · exact ⟨rfl, rfl⟩

/-- Where a missing ingredient is a fault, presenting is one for the first that is missing. -/
theorem present_cases (hd : s.instructions.decode? w = some d)
    (hop : d.instruction.operation = .present) (hfault : s.policy.unchosen = .fault)
    (m : Machine ScriptedConsole) :
    (∃ i, s.basket.get? i = none ∧ (∀ j, j.index < i.index → s.basket.get? j ≠ none) ∧
        (s.step w m).result = .error (.fault (.unchosen i)) ∧
        (s.step w m).machine.console = m.console) ∨
      ((∀ i, s.basket.get? i ≠ none) ∧ (s.step w m).result = .ok .next ∧
        (s.step w m).machine.console.output = m.console.output ++ [s.basket.presentation]) := by
  have hstep := step_present hd hop m
  rw [hfault] at hstep
  rcases hdish : s.basket.dish .fault with i | line <;> rw [hdish] at hstep
  · obtain ⟨hnone, hbefore⟩ := Basket.missing?_eq_some_iff.1 (Basket.dish_eq_error_iff.1 hdish).2
    exact .inl ⟨i, hnone, hbefore, hstep⟩
  · rw [Basket.eq_presentation_of_dish hdish] at hstep
    exact .inr ⟨Basket.get?_ne_none_of_dish hdish, hstep.1, by rw [hstep.2]⟩

theorem console_present_of_empty (hd : s.instructions.decode? w = some d)
    (hop : d.instruction.operation = .present) (hempty : s.policy.unchosen = .empty)
    (m : Machine ScriptedConsole) : (s.step w m).machine.console =
      { m.console with output := m.console.output ++ [s.basket.presentation] } := by
  have hstep := step_present hd hop m
  rw [hempty, Basket.dish_empty] at hstep
  exact hstep.2

theorem unchosen_of_step {m : Machine ScriptedConsole} {i : Ingredient}
    (h : (s.step w m).result = .error (.fault (.unchosen i))) : s.basket.get? i = none := by
  obtain ⟨d, hd, hkind⟩ := kind_of_step h
  have hstep := step_present hd (Operation.eq_present_of_unsetSlot hkind) m
  rcases hdish : s.basket.dish s.policy.unchosen with j | line <;> rw [hdish] at hstep
  · obtain rfl : i = j := by simpa [h] using hstep.1
    exact (Basket.missing?_eq_some_iff.1 (Basket.dish_eq_error_iff.1 hdish).2).1
  · simp [h] at hstep

theorem get?_ne_none_iff_chose (hs : s.basket = .empty) (m : Machine ScriptedConsole)
    (words : List Word) (i : Ingredient) :
    (s.sessionAfter m words).basket.get? i ≠ none ↔ s.Chose m words i := by
  rw [get?_sessionAfter, hs, ← Option.isSome_iff_ne_none, chose_iff]
  simp [Basket.empty, List.lookup_isSome_iff]

theorem get?_ne_none_of_step {i : Ingredient} (h : s.basket.get? i ≠ none) (w : Word)
    (m : Machine ScriptedConsole) : (s.step w m).basket.get? i ≠ none := by
  rw [(s.collecting_step w m).get?_eq i]
  simp [h]

theorem unchosen_ne_of_complete {m : Machine ScriptedConsole}
    (h : ∀ i, s.basket.get? i ≠ none) (words : List Word) :
    ∀ done ∈ s.run m words, ∀ i, done.result ≠ .error (.fault (.unchosen i)) := by
  refine forall_mem_run (I := fun s _ => ∀ i, s.basket.get? i ≠ none)
    (P := fun done => ∀ i, done.result ≠ .error (.fault (.unchosen i)))
    ?_ ?_ words h
  · intro s m w hI i hi
    exact hI i (unchosen_of_step hi)
  · intro s m w hI i
    exact get?_ne_none_of_step (hI i) w m

/-- In a session where a missing ingredient is a fault, presenting succeeds at any point of a run
exactly if every ingredient was collected before in it. If not, it is a fault for the first that was
not, and the console is left alone. If so, it writes one line, the one that would be written if a
missing ingredient were left empty, and nothing is ever missing from then on. -/
theorem present_after_run {instructions : InstructionSet} {config : Config} {s : Session}
    (hs : create instructions config = .ok s) (hfault : config.unchosen = .fault)
    (m : Machine ScriptedConsole) (words : List Word) {w : Word} {d : Decoding}
    (hd : instructions.decode? w = some d) (hop : d.instruction.operation = .present) :
    let s' := s.sessionAfter m words
    let m' := s.machineAfter m words
    let done := s'.step w m'
    ((∃ c, done.result = .ok c) ↔ ∀ i, s.Chose m words i) ∧
      (∀ i, ¬ s.Chose m words i → (∀ j, j.index < i.index → s.Chose m words j) →
        done.result = .error (.fault (.unchosen i)) ∧ done.machine.console = m'.console) ∧
      ∀ c, done.result = .ok c →
        (∃ empty line, create instructions { config with unchosen := .empty } = .ok empty ∧
          done.machine.console.output = m'.console.output ++ [line] ∧
          ((empty.withBasket s'.basket).step w m').machine.console.output =
            m'.console.output ++ [line]) ∧
        ∀ later, ∀ next ∈ (s'.after done).run done.machine later, ∀ i,
          next.result ≠ .error (.fault (.unchosen i)) := by
  intro s' m' done
  obtain ⟨hregisters, rfl⟩ := (create_eq_ok_iff _ _ _).1 hs
  have hdecode : s'.instructions.decode? w = some d := by
    rwa [instructions_sessionAfter]
  have hpolicy : s'.policy.unchosen = .fault := by
    rw [policy_sessionAfter]
    exact hfault
  have hchose := fun i => get?_ne_none_iff_chose (s := fresh instructions config) rfl m words i
  rcases present_cases hdecode hop hpolicy m' with
    ⟨i, hnone, hbefore, hresult, hconsole⟩ | ⟨hcomplete, hresult, hconsole⟩
  · have hi : ¬ (fresh instructions config).Chose m words i := fun h => (hchose i).2 h hnone
    have hbeforei := fun j hlt => (hchose j).1 (hbefore j hlt)
    refine ⟨⟨fun ⟨c, hc⟩ => ?_, fun h => absurd (h i) hi⟩, fun j hj hbeforej => ?_, fun c hc => ?_⟩
    · cases hresult.symm.trans hc
    · obtain rfl := Ingredient.eq_of_first hi hbeforei hj hbeforej
      exact ⟨hresult, hconsole⟩
    · cases hresult.symm.trans hc
  · refine ⟨⟨fun _ i => (hchose i).1 (hcomplete i), fun _ => ⟨_, hresult⟩⟩,
      fun i hi => absurd ((hchose i).1 (hcomplete i)) hi, fun c hc => ⟨?_, ?_⟩⟩
    · refine ⟨fresh instructions { config with unchosen := .empty }, s'.basket.presentation,
        (create_eq_ok_iff _ _ _).2 ⟨hregisters, rfl⟩, hconsole, ?_⟩
      rw [console_present_of_empty (by exact hd) hop rfl]
      rfl
    · intro later
      have hafter : ∀ i, (s'.after done).basket.get? i ≠ none := fun i =>
        get?_ne_none_of_step (hcomplete i) w m'
      exact unchosen_ne_of_complete hafter later

/-- Protein and dairy are collected, and presenting fails for want of grains. The rest is collected,
and presenting succeeds, and succeeds again. -/
theorem present_after_run_five :
    ∃ (s : Session) (m : Machine ScriptedConsole) (d : Decoding) (two five : List Word),
      create s.instructions { unchosen := .fault } = .ok s ∧
      s.instructions.decode? 0x39#32 = some d ∧ d.instruction.operation = .present ∧
      two = [0x3b#32, 0x33#32] ∧ five = two ++ [0x39#32, 0x2b#32, 0x19#32, 0x28#32] ∧
      ((s.sessionAfter m two).step 0x39#32 (s.machineAfter m two)).result =
        .error (.fault (.unchosen .grains)) ∧
      let done := (s.sessionAfter m five).step 0x39#32 (s.machineAfter m five)
      done.result = .ok .next ∧
        ∀ next ∈ ((s.sessionAfter m five).after done).run done.machine [0x3b#32, 0x39#32], ∀ i,
          next.result ≠ .error (.fault (.unchosen i)) := by
  obtain ⟨instructions, hinstructions⟩ : ∃ instructions : InstructionSet, instructions =
    .ofOffers (ChefAssembly.instructionsFor (.present :: Ingredient.all.map .collect)) := ⟨_, rfl⟩
  obtain ⟨s, hs⟩ : ∃ s, s = fresh instructions { unchosen := .fault } := ⟨_, rfl⟩
  obtain ⟨m, hm⟩ : ∃ m : Machine ScriptedConsole,
    m = .fresh 0#32 4 (.ofInput ["tofu", "milk", "rice", "kale", "fig"]) := ⟨_, rfl⟩
  obtain ⟨two, htwo⟩ : ∃ two : List Word, two = [0x3b#32, 0x33#32] := ⟨_, rfl⟩
  have hcreate : create s.instructions { unchosen := .fault } = .ok s := by
    rw [hs]
    exact create_eq_fresh instructions rfl
  have hdecode : (s.instructions.decode? 0x39#32).map (fun d => d.instruction.operation) =
      some .present := by
    rw [hs, hinstructions]
    decide +kernel
  obtain ⟨d, hd, hop⟩ := Option.map_eq_some_iff.1 hdecode
  have hcollected : s.collected m two = [(.protein, "tofu"), (.dairy, "milk")] := by
    rw [hs, hinstructions, hm, htwo]
    decide +kernel
  have hresult : ((s.sessionAfter m (two ++ [0x39#32, 0x2b#32, 0x19#32, 0x28#32])).step 0x39#32
      (s.machineAfter m (two ++ [0x39#32, 0x2b#32, 0x19#32, 0x28#32]))).result = .ok .next := by
    rw [hs, hinstructions, hm, htwo]
    decide +kernel
  obtain ⟨-, hfault, -⟩ := present_after_run hcreate rfl m two hd hop
  obtain ⟨-, -, hok⟩ := present_after_run hcreate rfl m
    (two ++ [0x39#32, 0x2b#32, 0x19#32, 0x28#32]) hd hop
  obtain ⟨hgrains, -⟩ := hfault .grains (by simp [chose_iff, hcollected]) fun j hj => by
    obtain rfl : j = .protein := Ingredient.eq_of_index_eq (Nat.lt_one_iff.1 hj)
    exact (chose_iff two s m _).2 ⟨_, by rw [hcollected]; exact List.mem_cons_self⟩
  exact ⟨s, m, d, two, _, hcreate, hd, hop, htwo, rfl, hgrains, hresult, (hok _ hresult).2 _⟩

end Session

end CookingIsa
