import Orvek.Contract
import Orvek.Lib.Checks
import Orvek.Lib.Elimination

/-!
# The dependencies of requirements

`Contract.validate` removes the requirements whose dependencies are removed, round after round, until
all of them are gone or a round removes none.

* `DependencyLoop`       the loop itself, without a bound on its rounds;
* `Progress`             what is removed, as a list in which dependencies come first;
* `Sound`                a contract that only its dependencies can make invalid;
* `validate_exact`       the loop ends, and it reports a cycle if and only if there is one.
-/

set_option linter.unusedSectionVars false

namespace Orvek
open Elimination Checks

namespace Dependencies

variable {set : BTreeSet String}

abbrev ids (l : List Requirement) : List String := l.map Requirement.id

/-- one requirement names the other as its dependency -/
abbrev DependsOn (requirements : List Requirement) : String → String → Prop :=
  fun a b => Needed Requirement.id Requirement.dependsOn requirements b a

/-- a cycle of dependencies, of any length -/
def Cyclic (requirements : List Requirement) : Prop :=
  ∃ id, Relation.TransGen (DependsOn requirements) id id

/-- the loop of the source -/
inductive DependencyLoop (requirements : List Requirement) (total : Nat) :
    BTreeSet String → Bool → Prop
  | accept {visited : BTreeSet String} (h : (Contract.visit requirements visited).size = total) :
      DependencyLoop requirements total visited true
  | cycle {visited : BTreeSet String} (hmore : (Contract.visit requirements visited).size ≠ total)
      (h : (Contract.visit requirements visited).size = visited.size) :
      DependencyLoop requirements total visited false
  | again {visited : BTreeSet String} {b : Bool}
      (hmore : (Contract.visit requirements visited).size ≠ total)
      (hgrown : (Contract.visit requirements visited).size ≠ visited.size)
      (h : DependencyLoop requirements total (Contract.visit requirements visited) b) :
      DependencyLoop requirements total visited b

/-- what was visited is an ordered list of requirements -/
structure Progress (requirements : List Requirement) (visited : BTreeSet String)
    (l : List Requirement) : Prop where
  mem : ∀ k, k ∈ visited ↔ k ∈ ids l
  size : visited.size = l.length
  ordered : Ordered Requirement.id Requirement.dependsOn l
  sub : ∀ r ∈ l, r ∈ requirements

variable {requirements l : List Requirement} {visited : BTreeSet String} {total : Nat}

theorem progress_empty : Progress requirements ∅ [] :=
  ⟨fun k => by simp, rfl, .nil, nofun⟩

theorem Progress.all_contains (h : Progress requirements visited l) (r : Requirement) :
    r.dependsOn.all visited.contains = true ↔ ∀ k ∈ r.dependsOn, k ∈ ids l := by
  rw [List.all_eq_true]
  exact forall₂_congr fun k _ => Std.ExtTreeSet.contains_iff_mem.trans (h.mem k)

theorem Progress.visitOne (h : Progress requirements visited l) {r : Requirement}
    (hr : r ∈ requirements) :
    ∃ l', Progress requirements
        (if r.dependsOn.all visited.contains then visited.insert r.id else visited) l' ∧
      l <:+ l' ∧ (l' = l → (∀ k ∈ r.dependsOn, k ∈ ids l) → r.id ∈ ids l) := by
  by_cases hdeps : r.dependsOn.all visited.contains = true
  · rw [if_pos hdeps]
    rw [h.all_contains] at hdeps
    by_cases hold : r.id ∈ ids l
    · refine ⟨l, ⟨fun k => ?_, ?_, h.ordered, h.sub⟩, List.suffix_refl l, fun _ _ => hold⟩
      · rw [mem_insert_string, h.mem]
        exact ⟨fun hk => hk.elim (fun he => he ▸ hold) id, .inr⟩
      · rw [Std.ExtTreeSet.size_insert, if_pos (Std.ExtTreeSet.contains_iff_mem.mpr ((h.mem _).mpr hold)),
          h.size]
    · refine ⟨r :: l, ⟨fun k => ?_, ?_, h.ordered.cons hdeps hold, ?_⟩, List.suffix_cons r l,
        fun he => absurd he (List.cons_ne_self r l)⟩
      · rw [mem_insert_string, h.mem]
        exact List.mem_cons.symm
      · rw [Std.ExtTreeSet.size_insert,
          if_neg fun hk => hold ((h.mem _).mp (Std.ExtTreeSet.contains_iff_mem.mp hk)), h.size]
        rfl
      · intro x hx
        rcases List.mem_cons.mp hx with rfl | hx
        · exact hr
        · exact h.sub x hx
  · rw [if_neg hdeps]
    rw [h.all_contains] at hdeps
    exact ⟨l, h, List.suffix_refl l, fun _ hk => absurd hk hdeps⟩

theorem Progress.visit {rs : List Requirement} (h : Progress requirements visited l)
    (hrs : ∀ r ∈ rs, r ∈ requirements) :
    ∃ l', Progress requirements (Contract.visit rs visited) l' ∧ l <:+ l' ∧
      (l' = l → ∀ r ∈ rs, (∀ k ∈ r.dependsOn, k ∈ ids l) → r.id ∈ ids l) := by
  induction rs generalizing visited l with
  | nil => exact ⟨l, h, List.suffix_refl l, fun _ => nofun⟩
  | cons r rs ih =>
    obtain ⟨l₁, h₁, hsuffix₁, hstuck₁⟩ := h.visitOne (hrs r List.mem_cons_self)
    obtain ⟨l₂, h₂, hsuffix₂, hstuck₂⟩ := ih h₁ fun x hx => hrs x (List.mem_cons_of_mem r hx)
    refine ⟨l₂, h₂, hsuffix₁.trans hsuffix₂, fun he x hx hdeps => ?_⟩
    have hlen₁ := hsuffix₁.length_le
    have hlen₂ := hsuffix₂.length_le
    rw [he] at hlen₂
    have hsame : l₁ = l := (hsuffix₁.eq_of_length (by omega)).symm
    rcases List.mem_cons.mp hx with rfl | hx
    · exact hstuck₁ hsame hdeps
    · rw [← hsame] at hdeps ⊢
      exact hstuck₂ (he.trans hsame.symm) x hx hdeps

/-- **The loop ends**, and the model's bound on its rounds is no bound. -/
theorem acyclic_loop {fuel : Nat} (h : Progress requirements visited l)
    (htotal : requirements.length = total) (hfuel : total < fuel + visited.size) :
    DependencyLoop requirements total visited (Contract.acyclic requirements total fuel visited) := by
  induction fuel generalizing visited l with
  | zero =>
    have hle := h.ordered.length_le h.sub
    have hsize := h.size
    omega
  | succ fuel ih =>
    obtain ⟨l', h', hsuffix, -⟩ := h.visit fun _ hr => hr
    unfold Contract.acyclic
    simp only
    split
    · exact .accept ‹_›
    · split
      · exact .cycle ‹_› ‹_›
      · rename_i hgrown
        refine .again ‹_› hgrown (ih h' ?_)
        have hlen := hsuffix.length_le
        rw [h'.size, h.size] at hgrown
        rw [h.size] at hfuel
        rw [h'.size]
        omega

theorem DependencyLoop.ends {b : Bool} (hloop : DependencyLoop requirements total visited b)
    (h : Progress requirements visited l) :
    ∃ visited' l', Progress requirements visited' l' ∧ (b = true → visited'.size = total) ∧
      (b = false → visited'.size ≠ total ∧
        ∀ r ∈ requirements, (∀ k ∈ r.dependsOn, k ∈ ids l') → r.id ∈ ids l') := by
  induction hloop generalizing l with
  | accept hall =>
    obtain ⟨l', h', -, -⟩ := h.visit fun _ hr => hr
    exact ⟨_, l', h', fun _ => hall, nofun⟩
  | cycle hmore hsame =>
    obtain ⟨l', h', hsuffix, hstuck⟩ := h.visit fun _ hr => hr
    rw [h'.size, h.size] at hsame
    have hl : l' = l := (hsuffix.eq_of_length hsame.symm).symm
    refine ⟨_, l', h', nofun, fun _ => ⟨hmore, ?_⟩⟩
    rw [hl]
    exact hstuck hl
  | again _ _ _ ih =>
    obtain ⟨l', h', -, -⟩ := h.visit fun _ hr => hr
    exact ih h'

theorem loop_answers {b : Bool} (hnodup : (ids requirements).Nodup)
    (hover : ∀ r ∈ requirements, ∀ k ∈ r.dependsOn, k ∈ ids requirements)
    (hloop : DependencyLoop requirements requirements.length ∅ b) :
    (b = false ↔ Cyclic requirements) ∧
      (b = true → ∃ order : List Requirement, order.Perm requirements ∧
        ∀ first r last, order = first ++ r :: last → ∀ k ∈ r.dependsOn, k ∈ ids first) := by
  obtain ⟨visited', l', h, htrue, hfalse⟩ := hloop.ends progress_empty
  have hswap : ∀ id, Relation.TransGen (DependsOn requirements) id id ↔
      Relation.TransGen (Needed Requirement.id Requirement.dependsOn requirements) id id :=
    fun id => Relation.transGen_swap
  cases b with
  | true =>
    have hperm := h.ordered.perm h.sub (h.size.symm.trans (htrue rfl))
    refine ⟨⟨nofun, fun ⟨id, hcycle⟩ => absurd ((hswap id).mp hcycle) (not_cycle_of_acc ?_)⟩,
      fun _ => ⟨l'.reverse, (List.reverse_perm l').trans hperm,
        fun _ _ _ he => h.ordered.before he⟩⟩
    obtain ⟨d, -, hd⟩ := Relation.TransGen.tail'_iff.mp ((hswap id).mp hcycle)
    refine h.ordered.acc hnodup h.sub id ?_
    exact (hperm.map Requirement.id).mem_iff.mpr hd.named
  | false =>
    obtain ⟨hsize, hstuck⟩ := hfalse rfl
    refine ⟨⟨fun _ => ?_, fun _ => rfl⟩, nofun⟩
    by_contra hno
    have hacc : ∀ k, Acc (Needed Requirement.id Requirement.dependsOn requirements) k :=
      acc_of_no_cycle fun id hcycle => hno ⟨id, (hswap id).mpr hcycle⟩
    have hall : ids requirements ⊆ ids l' :=
      fun k hk => acc_of_stuck hstuck hover (hacc k) hk
    have hlen := (List.Nodup.subperm hnodup hall).length_le
    have hle := h.ordered.length_le h.sub
    rw [List.length_map, List.length_map] at hlen
    rw [h.size] at hsize
    omega

/-! ## the rest of the contract -/

def independent (c : Contract) : Contract :=
  { c with requirements := c.requirements.map fun r => { r with dependsOn := [] } }

/-- what `validate` asks besides the loop -/
structure Sound (c : Contract) (set : BTreeSet String) : Prop where
  request : blank c.request = false
  outcome : blank c.outcome = false
  scope : blank c.scope = false
  some : c.requirements.isEmpty = false
  identifiers : Contract.requirementIds c.requirements ∅ = .ok set
  references : c.requirements.forM (Contract.checkReferences c.checks set) = .ok ()
  checks : Contract.checkAll c.requirements c.checks.toList = .ok ()
  limits : c.limits.validate = .ok ()

theorem guard_bind {α : Type} (b : Bool) (e : ContractError) (k : Unit → Except ContractError α) :
    (if b = true then (throw e : Except ContractError Unit) >>= k else k ()) =
      Checks.refuseIf (b = true) e >>= k := by
  cases b <;> rfl

theorem validate_guards (c : Contract) : c.validate = (do
    Checks.refuseIf (blank c.request = true) (ContractError.empty "request")
    Checks.refuseIf (blank c.outcome = true) (ContractError.empty "outcome")
    Checks.refuseIf (blank c.scope = true) (ContractError.empty "scope")
    Checks.refuseIf (c.requirements.isEmpty = true) (ContractError.empty "requirements")
    let ids ← Contract.requirementIds c.requirements ∅
    c.requirements.forM (Contract.checkReferences c.checks ids)
    Checks.refuseIf ((!Contract.acyclic c.requirements ids.size (ids.size + 1) ∅) = true)
      ContractError.cycle
    Contract.checkAll c.requirements c.checks.toList
    c.limits.validate) := by
  unfold Contract.validate
  simp only [guard_bind]

theorem Sound.of_validate {c : Contract} (h : c.validate = .ok ()) : ∃ set, Sound c set := by
  rw [validate_guards] at h
  obtain ⟨hrequest, h⟩ := Checks.refuseIf_bind h
  obtain ⟨houtcome, h⟩ := Checks.refuseIf_bind h
  obtain ⟨hscope, h⟩ := Checks.refuseIf_bind h
  obtain ⟨hsome, h⟩ := Checks.refuseIf_bind h
  obtain ⟨set, hids, h⟩ := bind_ok h
  obtain ⟨_, hreferences, h⟩ := bind_ok h
  obtain ⟨-, h⟩ := Checks.refuseIf_bind h
  obtain ⟨_, hchecks, h⟩ := bind_ok h
  exact ⟨set, by simpa using hrequest, by simpa using houtcome, by simpa using hscope,
    by simpa using hsome, hids, hreferences, hchecks, h⟩

theorem Sound.validate {c : Contract} (h : Sound c set) :
    c.validate = if Contract.acyclic c.requirements set.size (set.size + 1) ∅ = true then .ok ()
      else .error .cycle := by
  rw [validate_guards, h.request, h.outcome, h.scope, h.some, h.identifiers, ok_bind, h.references,
    h.checks, h.limits]
  cases Contract.acyclic c.requirements set.size (set.size + 1) ∅ <;> rfl

theorem requirementIds_ok {rs : List Requirement} {start : BTreeSet String}
    (h : Contract.requirementIds rs start = .ok set) :
    (ids rs).Nodup ∧ (∀ k ∈ ids rs, k ∉ start) ∧ set.size = start.size + rs.length ∧
      ∀ k, k ∈ set ↔ k ∈ ids rs ∨ k ∈ start := by
  induction rs generalizing start with
  | nil =>
    cases h
    exact ⟨List.nodup_nil, nofun, rfl, fun k => (or_iff_right (List.not_mem_nil)).symm⟩
  | cons r rs ih =>
    unfold Contract.requirementIds at h
    split at h
    · cases h
    rename_i hid
    split at h
    · cases h
    split at h
    · cases h
    split at h
    · cases h
    obtain ⟨hnodup, hfresh, hsize, hmem⟩ := ih h
    have hnew : r.id ∉ start := fun hr => hid (by
      rw [Std.ExtTreeSet.contains_iff_mem.mpr hr, Bool.or_true])
    have hnot : ∀ k ∈ ids rs, k ≠ r.id ∧ k ∉ start := fun k hk =>
      not_or.mp fun hor => hfresh k hk (mem_insert_string.mpr hor)
    refine ⟨List.nodup_cons.mpr ⟨fun hr => (hnot _ hr).1 rfl, hnodup⟩, ?_, ?_, fun k => ?_⟩
    · intro k hk
      rcases List.mem_cons.mp hk with rfl | hk
      · exact hnew
      · exact (hnot k hk).2
    · rw [hsize, Std.ExtTreeSet.size_insert,
        if_neg fun hr => hnew (Std.ExtTreeSet.contains_iff_mem.mp hr), List.length_cons]
      omega
    · rw [hmem, mem_insert_string]
      show _ ↔ k ∈ r.id :: ids rs ∨ _
      rw [List.mem_cons]
      tauto

theorem checkReferences_ok {checks : BTreeMap String CheckDefinition} {r : Requirement} :
    Contract.checkReferences checks set r = .ok () ↔
      (∀ k ∈ r.checks, checks.contains k = true) ∧ ∀ k ∈ r.dependsOn, k ∈ set := by
  unfold Contract.checkReferences
  constructor
  · intro h
    split at h
    · cases h
    rename_i hchecks
    split at h
    · cases h
    rename_i hdeps
    refine ⟨fun k hk => ?_, fun k hk => ?_⟩
    · simpa using List.find?_eq_none.mp hchecks k hk
    · simpa using List.find?_eq_none.mp hdeps k hk
  · rintro ⟨hchecks, hdeps⟩
    have hnone : r.checks.find? (fun check => !checks.contains check) = none :=
      List.find?_eq_none.mpr fun k hk => by rw [hchecks k hk]; exact Bool.false_ne_true
    have hnone' : r.dependsOn.find? (fun dependency => !set.contains dependency) = none :=
      List.find?_eq_none.mpr fun k hk => by
        rw [Std.ExtTreeSet.contains_iff_mem.mpr (hdeps k hk)]
        exact Bool.false_ne_true
    rw [hnone]
    simp only
    rw [hnone']

/-! ## removing the dependencies -/

section
variable {c : Contract}
variable (rs : List Requirement)

theorem requirementIds_independent (start : BTreeSet String) :
    Contract.requirementIds (rs.map fun r => { r with dependsOn := [] }) start =
      Contract.requirementIds rs start := by
  induction rs generalizing start with
  | nil => rfl
  | cons r rs ih =>
    rw [List.map_cons]
    unfold Contract.requirementIds
    rw [ih]

theorem checkReason_independent (id : String) (check : CheckDefinition) :
    Contract.checkReason (rs.map fun r => { r with dependsOn := [] }) id check =
      Contract.checkReason rs id check := by
  unfold Contract.checkReason
  rw [List.any_map]
  rfl

theorem checkAll_independent (l : List (String × CheckDefinition)) :
    Contract.checkAll (rs.map fun r => { r with dependsOn := [] }) l = Contract.checkAll rs l := by
  induction l with
  | nil => rfl
  | cons x l ih =>
    unfold Contract.checkAll
    rw [checkReason_independent, ih]

theorem Sound.of_independent (h : (independent c).validate = .ok ())
    (hover : ∀ r ∈ c.requirements, ∀ k ∈ r.dependsOn, k ∈ ids c.requirements) : ∃ set, Sound c set := by
  obtain ⟨set, hset⟩ := Sound.of_validate h
  have hids : Contract.requirementIds c.requirements ∅ = .ok set := by
    rw [← requirementIds_independent]
    exact hset.identifiers
  have hchecks : Contract.checkAll c.requirements c.checks.toList = .ok () := by
    rw [← checkAll_independent]
    exact hset.checks
  have hsome : c.requirements.isEmpty = false := by
    have := hset.some
    rwa [independent, List.isEmpty_map] at this
  refine ⟨set, hset.request, hset.outcome, hset.scope, hsome, hids, ?_, hchecks, hset.limits⟩
  refine forM_ok.mpr fun r hr => checkReferences_ok.mpr ⟨?_, fun k hk => ?_⟩
  · exact (checkReferences_ok.mp (forM_ok.mp hset.references _ (List.mem_map_of_mem hr))).1
  · exact ((requirementIds_ok hids).2.2.2 k).mpr (.inl (hover r hr k hk))

/-- **The dependencies are judged exactly.**  When the rest of a contract is valid and its dependencies
are requirements of it, the loop ends, a cycle is reported if and only if there is one, and otherwise the
contract is accepted and its requirements have an order in which dependencies come first. -/
theorem validate_exact (h : (independent c).validate = .ok ())
    (hover : ∀ r ∈ c.requirements, ∀ k ∈ r.dependsOn, k ∈ ids c.requirements) :
    (∃ b, DependencyLoop c.requirements c.requirements.length ∅ b ∧
      c.validate = if b = true then .ok () else .error .cycle) ∧
    (c.validate = .error .cycle ↔ Cyclic c.requirements) ∧
    (c.validate = .ok () ↔ ¬ Cyclic c.requirements) ∧
    (c.validate = .ok () → ∃ order : List Requirement, order.Perm c.requirements ∧
      ∀ first r last, order = first ++ r :: last → ∀ k ∈ r.dependsOn, k ∈ ids first) := by
  obtain ⟨set, hsound⟩ := Sound.of_independent h hover
  obtain ⟨hnodup, -, hsize, -⟩ := requirementIds_ok hsound.identifiers
  have hsize : set.size = c.requirements.length := hsize.trans (Nat.zero_add _)
  have hvalidate := hsound.validate
  rw [hsize] at hvalidate
  have hloop : DependencyLoop c.requirements c.requirements.length ∅
      (Contract.acyclic c.requirements c.requirements.length (c.requirements.length + 1) ∅) :=
    acyclic_loop progress_empty rfl (Nat.lt_succ_self _)
  obtain ⟨hcycle, horder⟩ := loop_answers hnodup hover hloop
  generalize Contract.acyclic c.requirements c.requirements.length (c.requirements.length + 1) ∅ = b at *
  refine ⟨⟨b, hloop, hvalidate⟩, ?_⟩
  rw [hvalidate, ← hcycle]
  cases b with
  | true => exact ⟨⟨nofun, nofun⟩, ⟨fun _ => nofun, fun _ => rfl⟩, fun _ => horder rfl⟩
  | false => exact ⟨⟨fun _ => rfl, fun _ => rfl⟩, ⟨nofun, fun hno => absurd rfl hno⟩, nofun⟩

end

def buildCheck : CheckDefinition where
  purpose := "it builds"
  kind := .build
  verifier := ⟨0⟩
  command := ["make"]
  timeoutMs := 1
  minimumAssertions := 0
  control := .none
  controlSource := none
  baseline := .mustPass
  flake := .rejectAnyFailure

/-- two requirements, the first of which names the second twice -/
def chained : Contract where
  request := "build"
  outcome := "a build"
  scope := "all"
  requirements := [⟨"s", "it starts", .user "request", ["c"], ["r", "r"]⟩,
    ⟨"r", "it builds", .user "request", ["c"], []⟩]
  checks := .ofList [("c", buildCheck)]
  protectedBehavior := []
  assumptions := []
  openQuestions := []
  delivery := .source
  limits := Limits.default

theorem validate_exact_chained : chained.validate = .ok () ∧ ¬ Cyclic chained.requirements ∧
    ∃ order : List Requirement, order.Perm chained.requirements ∧
      ∀ first r last, order = first ++ r :: last → ∀ k ∈ r.dependsOn, k ∈ ids first := by
  have hvalid : chained.validate = .ok () := by decide +kernel
  obtain ⟨-, -, hok, horder⟩ := validate_exact (c := chained) (by decide +kernel) (by decide)
  exact ⟨hvalid, hok.mp hvalid, horder hvalid⟩

end Dependencies

end Orvek
