import Mathlib.Data.List.Forall2
import Mathlib.Tactic.Tauto

/-!
# Outcomes of computations that may fail

A chain of computations succeeds exactly if every link succeeds. These are the inversion rules by
which the proofs take such chains apart, first without a state and then with one.
-/

namespace Autodiff

variable {ε σ α β : Type}

@[simp] theorem ok_bind (value : α) (next : α → Except ε β) :
    (Except.ok value >>= next) = next value := rfl

@[simp] theorem error_bind (cause : ε) (next : α → Except ε β) :
    ((Except.error cause : Except ε α) >>= next) = .error cause := rfl

@[simp] theorem throw_bind (cause : ε) (next : α → Except ε β) :
    ((throw cause : Except ε α) >>= next) = .error cause := rfl

theorem bind_eq_ok {first : Except ε α} {next : α → Except ε β} {result : β} :
    (first >>= next) = .ok result ↔ ∃ value, first = .ok value ∧ next value = .ok result := by
  cases first <;> simp

variable {related : α → β → Prop} {firsts : List α}

theorem forall₂_getElem? {seconds : List β} (all : List.Forall₂ related firsts seconds) {index : Nat} {first : α}
    (found : firsts[index]? = some first) :
    ∃ second, seconds[index]? = some second ∧ related first second := by
  rcases List.getElem?_eq_some_iff.mp found with ⟨inside, rfl⟩
  have inside' : index < seconds.length := Nat.lt_of_lt_of_eq inside all.length_eq
  exact ⟨seconds[index], List.getElem?_eq_getElem inside',
    (List.forall₂_iff_get.mp all).2 index inside inside'⟩

theorem exists_related {seconds : List β} {first : α} (all : List.Forall₂ related firsts seconds)
    (member : first ∈ firsts) :
    ∃ second ∈ seconds, related first second := by
  rcases List.mem_iff_getElem?.mp member with ⟨index, found⟩
  rcases forall₂_getElem? all found with ⟨second, foundSecond, holds⟩
  exact ⟨second, List.mem_of_getElem? foundSecond, holds⟩

variable {γ : Type}

theorem forall₂_zip_left {seconds : List β} (all : List.Forall₂ related firsts seconds) (labels : List γ) :
    List.Forall₂ (fun first second => first.1 = second.1 ∧ related first.2 second.2)
      (labels.zip firsts) (labels.zip seconds) := by
  induction all generalizing labels with
  | nil => simp
  | cons head _ ih =>
      cases labels with
      | nil => simp
      | cons label labels => exact .cons ⟨rfl, head⟩ (ih labels)

theorem forall₂_imp_of_mem {stronger : α → β → Prop} {seconds : List β} (all : List.Forall₂ related firsts seconds)
    (implies : ∀ first second, first ∈ firsts → related first second → stronger first second) :
    List.Forall₂ stronger firsts seconds := by
  rcases List.forall₂_iff_zip.mp all with ⟨length, each⟩
  exact List.forall₂_iff_zip.mpr ⟨length, fun member =>
    implies _ _ (List.of_mem_zip member).1 (each member)⟩

variable {before : α → β → Prop}

theorem forall₂_trans {after : β → γ → Prop} {seconds : List β} {thirds : List γ}
    (left : List.Forall₂ before firsts seconds) (right : List.Forall₂ after seconds thirds) :
    List.Forall₂ (fun first third => ∃ second, before first second ∧ after second third) firsts
      thirds := by
  induction left generalizing thirds with
  | nil =>
      cases right
      exact .nil
  | cons head _ ih =>
      cases right with
      | cons head' tail' => exact .cons ⟨_, head, head'⟩ (ih tail')

theorem forall₂_split {after : β → γ → Prop} {thirds : List γ}
    (all : List.Forall₂ (fun first third => ∃ second, before first second ∧ after second third) firsts
      thirds) :
    ∃ seconds, List.Forall₂ before firsts seconds ∧ List.Forall₂ after seconds thirds := by
  induction all with
  | nil => exact ⟨[], .nil, .nil⟩
  | cons head _ ih =>
      rcases head with ⟨second, left, right⟩
      rcases ih with ⟨seconds, lefts, rights⟩
      exact ⟨second :: seconds, .cons left lefts, .cons right rights⟩

theorem forall₂_range (elements : List α) :
    List.Forall₂ (fun index element => elements[index]? = some element)
      (List.range elements.length) elements := by
  rw [List.forall₂_iff_get]
  refine ⟨List.length_range, fun index _ inside => ?_⟩
  simp [inside]

theorem mapM_eq_ok {elements : List α} {function : α → Except ε β} {results : List β} :
    elements.mapM function = .ok results ↔
      List.Forall₂ (fun element result => function element = .ok result) elements results := by
  induction elements generalizing results with
  | nil =>
      rw [List.mapM_nil, List.forall₂_nil_left_iff]
      exact ⟨fun equal => (Except.ok.inj equal).symm, fun equal => equal ▸ rfl⟩
  | cons element elements ih =>
      simp only [List.mapM_cons, bind_eq_ok, List.forall₂_cons_left_iff, ih]
      constructor
      · rintro ⟨head, headOk, tail, tailOk, equal⟩
        exact ⟨head, tail, headOk, tailOk, (Except.ok.inj equal).symm⟩
      · rintro ⟨head, tail, headOk, tailOk, rfl⟩
        exact ⟨head, headOk, tail, tailOk, rfl⟩

theorem mapM_ok {elements : List α} {function : α → Except ε β} {result : α → β}
    (each : ∀ element ∈ elements, function element = .ok (result element)) :
    elements.mapM function = .ok (elements.map result) :=
  mapM_eq_ok.mpr (List.forall₂_map_right_iff.mpr (List.forall₂_same.mpr each))

theorem exists_mapM_iff {elements : List α} {function : α → Except ε β} :
    (∃ results, elements.mapM function = .ok results) ↔
      ∀ element ∈ elements, ∃ result, function element = .ok result := by
  induction elements with
  | nil => exact ⟨fun _ => by simp, fun _ => ⟨[], rfl⟩⟩
  | cons element elements ih =>
      rw [List.forall_mem_cons, ← ih]
      constructor
      · rintro ⟨results, equal⟩
        rcases List.forall₂_cons_left_iff.mp (mapM_eq_ok.mp equal) with ⟨head, tail, first, rest, -⟩
        exact ⟨⟨head, first⟩, tail, mapM_eq_ok.mpr rest⟩
      · rintro ⟨⟨head, first⟩, tail, rest⟩
        exact ⟨head :: tail, mapM_eq_ok.mpr (.cons first (mapM_eq_ok.mp rest))⟩

variable {check : α → Except ε Unit}

theorem forM_eq_ok {elements : List α} :
    elements.forM check = .ok () ↔ ∀ element ∈ elements, check element = .ok () := by
  induction elements with
  | nil => exact ⟨fun _ => by simp, fun _ => rfl⟩
  | cons element elements ih =>
      have unfolded : (element :: elements).forM check =
          (check element >>= fun _ => elements.forM check) := rfl
      rw [unfolded, bind_eq_ok, List.forall_mem_cons, ih]
      exact ⟨fun ⟨_, first, rest⟩ => ⟨first, rest⟩, fun ⟨first, rest⟩ => ⟨(), first, rest⟩⟩

/-! ## Failures -/

/-- The first element that does not pass is one that stops. -/
def StopsAt (passes stops : α → Prop) (elements : List α) : Prop :=
  ∃ before element after,
    elements = before ++ element :: after ∧ (∀ earlier ∈ before, passes earlier) ∧ stops element

section StopsAt

variable {passes stops : α → Prop}

@[simp] theorem not_stopsAt_nil : ¬ StopsAt passes stops [] := by
  rintro ⟨before, element, after, equal, -, -⟩
  simp at equal

@[simp] theorem stopsAt_cons {element : α} {elements : List α} :
    StopsAt passes stops (element :: elements) ↔
      stops element ∨ passes element ∧ StopsAt passes stops elements := by
  constructor
  · rintro ⟨before, found, after, equal, passed, stopped⟩
    cases before with
    | nil =>
        simp only [List.nil_append, List.cons.injEq] at equal
        exact .inl (equal.1 ▸ stopped)
    | cons first before =>
        simp only [List.cons_append, List.cons.injEq] at equal
        obtain ⟨rfl, rfl⟩ := equal
        simp only [List.mem_cons, forall_eq_or_imp] at passed
        exact .inr ⟨passed.1, before, found, after, rfl, passed.2, stopped⟩
  · rintro (stopped | ⟨passed, before, found, after, rfl, rest, stopped⟩)
    · exact ⟨[], element, elements, rfl, by simp, stopped⟩
    · exact ⟨element :: before, found, after, rfl, by simpa using ⟨passed, rest⟩, stopped⟩

theorem stopsAt_append {seconds : List α} :
    StopsAt passes stops (firsts ++ seconds) ↔
      StopsAt passes stops firsts ∨ (∀ first ∈ firsts, passes first) ∧ StopsAt passes stops seconds := by
  induction firsts with
  | nil => simp
  | cons first firsts ih =>
      simp only [List.cons_append, stopsAt_cons, ih, List.forall_mem_cons]
      tauto

theorem stopsAt_map {function : γ → α} {elements : List γ} :
    StopsAt passes stops (elements.map function) ↔
      StopsAt (fun element => passes (function element)) (fun element => stops (function element))
        elements := by
  induction elements with
  | nil => simp
  | cons element elements ih => simp only [List.map_cons, stopsAt_cons, ih]

theorem StopsAt.exists_mem {elements : List α} (found : StopsAt passes stops elements) :
    ∃ element ∈ elements, stops element := by
  obtain ⟨before, element, after, rfl, -, stopped⟩ := found
  exact ⟨element, by simp, stopped⟩

theorem not_stopsAt_of_forall {elements : List α} (passed : ∀ element ∈ elements, passes element)
    (apart : ∀ element ∈ elements, passes element → ¬ stops element) :
    ¬ StopsAt passes stops elements := by
  intro found
  obtain ⟨element, member, stopped⟩ := found.exists_mem
  exact apart element member (passed element member) stopped

theorem StopsAt.not_stopsAt {otherwise : α → Prop} {elements : List α}
    (found : StopsAt passes stops elements) (fails : ∀ element, stops element → ¬ passes element)
    (fails' : ∀ element, otherwise element → ¬ passes element)
    (apart : ∀ element, stops element → ¬ otherwise element) :
    ¬ StopsAt passes otherwise elements := by
  induction elements with
  | nil => simp
  | cons element elements ih =>
      rw [stopsAt_cons] at found ⊢
      rintro (other | ⟨passed, rest⟩)
      · rcases found with stopped | ⟨passed, -⟩
        · exact apart element stopped other
        · exact fails' element other passed
      · rcases found with stopped | ⟨-, found⟩
        · exact fails element stopped passed
        · exact ih found rest

end StopsAt

/-- A computation succeeds with a value that it may return or fails for a reason that it may have. -/
def Ends (fails : ε → Prop) (returns : α → Prop) : Except ε α → Prop
  | .ok value => returns value
  | .error cause => fails cause

namespace Ends

variable {fails : ε → Prop} {returns : α → Prop}

theorem bind {later : β → Prop} {first : Except ε α} {next : α → Except ε β}
    (head : Ends fails returns first)
    (tail : ∀ value, returns value → Ends fails later (next value)) :
    Ends fails later (first >>= next) := by
  cases first with
  | error cause => exact head
  | ok value => exact tail value head

theorem mapM {elements : List α} {function : α → Except ε β}
    (each : ∀ element ∈ elements, Ends fails (related element) (function element)) :
    Ends fails (List.Forall₂ related elements) (elements.mapM function) := by
  induction elements with
  | nil => exact .nil
  | cons element elements ih =>
      rw [List.forall_mem_cons] at each
      rw [List.mapM_cons]
      exact each.1.bind fun _ head => (ih each.2).bind fun _ tail => .cons head tail

theorem mapM_all {property : β → Prop} {elements : List α} {function : α → Except ε β}
    (each : ∀ element ∈ elements, Ends fails property (function element)) :
    Ends fails (fun results => results.length = elements.length ∧ ∀ result ∈ results, property result)
      (elements.mapM function) := by
  induction elements with
  | nil => exact ⟨rfl, by simp⟩
  | cons element elements ih =>
      rw [List.forall_mem_cons] at each
      rw [List.mapM_cons]
      refine each.1.bind fun _ head => (ih each.2).bind fun _ tail => ?_
      exact ⟨congrArg Nat.succ tail.1, List.forall_mem_cons.mpr ⟨head, tail.2⟩⟩

theorem foldlM {elements : List β} {function : α → β → Except ε α} {start : α}
    (each : ∀ state, returns state → ∀ element ∈ elements, Ends fails returns (function state element))
    (begins : returns start) : Ends fails returns (elements.foldlM function start) := by
  induction elements generalizing start with
  | nil => exact begins
  | cons element elements ih =>
      rw [List.foldlM_cons]
      refine (each start begins element (List.mem_cons_self ..)).bind fun state holds => ?_
      exact ih (fun state holds other member => each state holds other (List.mem_cons_of_mem _ member))
        holds

theorem forM {elements : List α} (each : ∀ element ∈ elements, Ends fails (fun _ => True) (check element)) :
    Ends fails (fun _ => True) (elements.forM check) := by
  induction elements with
  | nil => exact True.intro
  | cons element elements ih =>
      rw [List.forall_mem_cons] at each
      exact each.1.bind fun _ _ => ih each.2

theorem any (computation : Except ε α) : Ends (fun _ => True) (fun _ => True) computation := by
  cases computation <;> trivial

variable {computation : Except ε α}

theorem mono {wider : ε → Prop} {weaker : α → Prop} (ends : Ends fails returns computation)
    (failing : ∀ cause, fails cause → wider cause) (returning : ∀ value, returns value → weaker value) :
    Ends wider weaker computation := by
  cases computation with
  | error cause => exact failing cause ends
  | ok value => exact returning value ends

theorem outcome (ends : Ends fails returns computation) :
    (∃ value, returns value ∧ computation = .ok value) ∨
      ∃ cause, fails cause ∧ computation = .error cause := by
  cases computation with
  | error cause => exact .inr ⟨cause, ends, rfl⟩
  | ok value => exact .inl ⟨value, ends, rfl⟩

theorem exists_ok (ends : Ends (fun _ => False) returns computation) :
    ∃ value, returns value ∧ computation = .ok value := by
  rcases ends.outcome with found | ⟨_, impossible, -⟩
  · exact found
  · exact impossible.elim

end Ends

/-- Both computations fail for the same reason, or both succeed with related results. -/
def Paired (related : α → β → Prop) : Except ε α → Except ε β → Prop
  | .ok first, .ok second => related first second
  | .error first, .error second => first = second
  | _, _ => False

theorem Paired.bind_same {common : Except ε γ} {first : γ → Except ε α} {second : γ → Except ε β}
    (next : ∀ value, common = .ok value → Paired related (first value) (second value)) :
    Paired related (common >>= first) (common >>= second) := by
  cases common with
  | error cause => exact rfl
  | ok value => exact next value rfl

/-- A computation fails, and in a given way. -/
def FailsWith (kind : ε → Prop) (computation : Except ε α) : Prop :=
  ∃ cause, kind cause ∧ computation = .error cause

variable {kind : ε → Prop}

@[simp] theorem not_failsWith_ok (value : α) :
    ¬ FailsWith kind (.ok value : Except ε α) := nofun

@[simp] theorem failsWith_error {cause : ε} :
    FailsWith kind (.error cause : Except ε α) ↔ kind cause := by
  simp [FailsWith]

theorem failsWith_bind {first : Except ε α} {next : α → Except ε β} :
    FailsWith kind (first >>= next) ↔
      FailsWith kind first ∨ ∃ value, first = .ok value ∧ FailsWith kind (next value) := by
  cases first <;> simp

/-- A list of computations fails as the first of them that does not succeed. -/
theorem failsWith_mapM {elements : List α} {function : α → Except ε β} :
    FailsWith kind (elements.mapM function) ↔
      StopsAt (fun element => ∃ result, function element = .ok result)
        (fun element => FailsWith kind (function element)) elements := by
  induction elements with
  | nil =>
      simp only [List.mapM_nil, not_stopsAt_nil, iff_false]
      exact not_failsWith_ok []
  | cons element elements ih =>
      have returned (value : β) (results : List β) :
          ¬ FailsWith kind (pure (value :: results) : Except ε (List β)) := not_failsWith_ok _
      simp only [List.mapM_cons, failsWith_bind, stopsAt_cons, ih, returned, and_false, exists_false,
        or_false, exists_and_right]

/-! ## With a state -/

variable {final : σ}

theorem run_bind_eq_ok {first : StateT σ (Except ε) α} {next : α → StateT σ (Except ε) β} {start : σ} {result : β} :
    (first >>= next).run start = .ok (result, final) ↔
      ∃ value between, first.run start = .ok (value, between) ∧
        (next value).run between = .ok (result, final) := by
  simp only [StateT.run_bind, bind_eq_ok, Prod.exists]

theorem run_bind_of_ok {first : StateT σ (Except ε) α} {next : α → StateT σ (Except ε) β} {value : α}
    {start between : σ} (ran : first.run start = .ok (value, between)) :
    (first >>= next).run start = (next value).run between := by
  rw [StateT.run_bind, ran]
  rfl

theorem run_pure_eq_ok {value result : α} {start : σ} :
    (pure value : StateT σ (Except ε) α).run start = .ok (result, final) ↔
      value = result ∧ start = final := by
  have returned : (pure value : StateT σ (Except ε) α).run start = .ok (value, start) := rfl
  rw [returned, Except.ok.injEq, Prod.mk.injEq]

theorem run_lift_eq_ok {first : Except ε α} {start : σ} {result : α} :
    (liftM first : StateT σ (Except ε) α).run start = .ok (result, final) ↔
      first = .ok result ∧ start = final := by
  have lifted : (liftM first : StateT σ (Except ε) α).run start =
      first >>= fun value => pure (value, start) := rfl
  rw [lifted, bind_eq_ok]
  constructor
  · rintro ⟨value, rfl, same⟩
    cases same
    exact ⟨rfl, rfl⟩
  · rintro ⟨rfl, rfl⟩
    exact ⟨result, rfl, rfl⟩

theorem run_modifyGet_eq_ok {update : σ → α × σ} {start : σ} {result : α} :
    (modifyGet update : StateT σ (Except ε) α).run start = .ok (result, final) ↔
      update start = (result, final) := by
  have updated : (modifyGet update : StateT σ (Except ε) α).run start = .ok (update start) := rfl
  rw [updated, Except.ok.injEq]

theorem run_get_eq_ok {start result : σ} :
    (get : StateT σ (Except ε) σ).run start = .ok (result, final) ↔
      result = start ∧ final = start := by
  have found : (get : StateT σ (Except ε) σ).run start = .ok (start, start) := rfl
  rw [found, Except.ok.injEq, Prod.mk.injEq]
  exact and_congr eq_comm eq_comm

theorem run_throw_ne_ok {cause : ε} {start : σ} {result : α} :
    (throw cause : StateT σ (Except ε) α).run start ≠ .ok (result, final) := by
  intro impossible
  cases impossible

end Autodiff
