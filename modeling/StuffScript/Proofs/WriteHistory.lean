import StuffScript.Proofs.Heap
import Mathlib.Data.List.Sort
import Mathlib.Data.String.Basic

/-!
# Scopes as the history of their writes

What scopes answer can be told from the requests that were made of them before, without looking into
them. A scope's way outwards is fixed by the request that made it. A name has in a scope what the last
request that wrote it there gave it. So an answer about a name depends on the nearest scope in which the
name was ever written and on the last write there; what was written further out does not matter, nor
what is written there later.

Requests are listed with the last one first. The main statement is `scopes_follow_history`.
-/

namespace StuffScript

namespace Scopes

/-- What can be asked of scopes. Names are set and defined by the same request. -/
inductive Request where
  | root
  | extend (parent : ScopeId)
  | assign (scope : ScopeId) (name : String) (v : Value)
  | stuff (scope : ScopeId) (name : String) (v : Value)
  | value (scope : ScopeId) (name : String)
  | stuffed (scope : ScopeId) (name : String)
  | owns (scope : ScopeId) (name : String)
  | names (scope : ScopeId)

/-- What scopes answer. -/
inductive Answer where
  | scope (id : ScopeId)
  | value (v : Value)
  | truth (b : Bool)
  | names (ns : List String)
  | fault (f : Fault)

/-- A value, or the fault of having none. -/
def Answer.ofExcept : Except Fault Value → Answer
  | .ok v => value v
  | .error f => fault f

/-- The answer to a request, and the scopes after it. -/
def answer (ss : Scopes) : Request → Answer × Scopes
  | .root => (.scope ss.root.1, ss.root.2)
  | .extend parent => (.scope (ss.extend parent).1, (ss.extend parent).2)
  | .assign σ name v => (.value v, ss.assign σ name v)
  | .stuff σ name v =>
    match ss.stuff σ name v with
    | .ok after => (.value v, after)
    | .error f => (.fault f, ss)
  | .value σ name => (.ofExcept (ss.value σ name), ss)
  | .stuffed σ name => (.ofExcept (ss.stuffed σ name), ss)
  | .owns σ name => (.truth (ss.owns σ name), ss)
  | .names σ => (.names (ss.names σ), ss)

/-- The scopes after some requests, where there were none before. -/
def after : List Request → Scopes
  | [] => {}
  | request :: earlier => ((after earlier).answer request).2

section History

/-- How many scopes some requests made. Each gets the number of those made before it. -/
def made : List Request → Nat
  | [] => 0
  | .root :: earlier => made earlier + 1
  | .extend _ :: earlier => made earlier + 1
  | _ :: earlier => made earlier

/-- The way from a scope outwards, the scope itself first. It is fixed when the scope is made. -/
def chain : List Request → ScopeId → List ScopeId
  | [], _ => []
  | .root :: earlier, id => if id = made earlier then [id] else chain earlier id
  | .extend parent :: earlier, id =>
    if id = made earlier then id :: chain earlier parent else chain earlier id
  | _ :: earlier, id => chain earlier id

/-- A write of a name in a scope: the value assigned to it, or the value that it had just before and the
value stuffed on it. -/
inductive Write where
  | assigned (v : Value)
  | stuffed (before v : Value)

/-- The value that a name has from a write on. -/
def Write.primary : Write → Value
  | assigned v => v
  | stuffed before _ => before

/-- What a request writes about a name in a scope: an assignment does so if there is the scope, and
stuffing if it succeeds. -/
def Request.write? (ss : Scopes) (id : ScopeId) (name : String) : Request → Option Write
  | .assign σ n v => if σ = id ∧ n = name ∧ σ < ss.size then some (.assigned v) else none
  | .stuff σ n v =>
    if σ = id ∧ n = name ∧ (ss.stuff σ n v).isOk then (ss.value σ n).toOption.map (.stuffed · v)
    else none
  | _ => none

/-- The last write of a name in a scope. -/
def lastWrite? (id : ScopeId) (name : String) : List Request → Option Write
  | [] => none
  | request :: earlier =>
    (request.write? (after earlier) id name).or (lastWrite? id name earlier)

/-- The last write of a name in the first scope, from a scope outwards, that has had any. -/
def nearestWrite? (history : List Request) (id : ScopeId) (name : String) : Option Write :=
  (chain history id).findSome? (lastWrite? · name history)

end History

section Bindings

/-- The binding that a write makes. -/
def Write.binding : Write → Binding
  | assigned v => { value := v }
  | stuffed before v => { value := before, stuffed := some v }

/-- The binding of a name in a scope itself. -/
def own (ss : Scopes) (name : String) (id : ScopeId) : Option Binding := (ss.get? id).bind (·.find? name)

/-- Writing a binding changes what that name has in that scope and nothing else. -/
theorem own_put (ss : Scopes) (σ : ScopeId) (n : String) (b : Binding) (name : String) (id : ScopeId) :
    (ss.put σ n b).own name id =
      if σ = id ∧ n = name ∧ σ < ss.size then some b else ss.own name id := by
  unfold own
  rw [get?_put]
  by_cases hid : id = σ
  · subst hid
    by_cases hsize : id < ss.size
    · obtain ⟨sc, hsc⟩ := get?_of_lt hsize
      simp only [hsc, hsize, if_true, Option.map_some, Option.bind_some, Scope.find?_bind, true_and,
        and_true, eq_comm]
    · simp [get?_eq_none (Nat.not_lt.mp hsize), hsize]
  · simp [hid, Ne.symm hid]

/-- A scope that is just made binds nothing. -/
theorem own_root (ss : Scopes) (name : String) (id : ScopeId) :
    ss.root.2.own name id = ss.own name id := by
  unfold own
  rw [get?_root]
  by_cases hid : id = ss.size
  · simp [hid, get?_eq_none, Scope.find?]
  · rw [if_neg hid]

/-- A new scope has no names of its own, and the others keep theirs. -/
theorem own_extend (ss : Scopes) (parent : ScopeId) (name : String) (id : ScopeId) :
    (ss.extend parent).2.own name id = ss.own name id := by
  unfold own
  rw [get?_extend]
  by_cases hid : id = ss.size
  · simp [hid, get?_eq_none, Scope.find?]
  · rw [if_neg hid]

/-- A name is found in a scope only if there is the scope. -/
theorem lt_size_of_lookup {ss : Scopes} {id : ScopeId} {name : String} {b : Binding}
    (h : ss.lookup id name = some b) : id < ss.size := by
  by_contra hsize
  rw [lookup, get?_eq_none (Nat.not_lt.mp hsize)] at h
  cases h

/-- Nothing is stuffed on a variable that does not exist. -/
theorem answer_stuff_of_none {ss : Scopes} {σ : ScopeId} {n : String} (h : ss.lookup σ n = none)
    (v : Value) : ss.stuff σ n v = .error (.undefinedVariable n) ∧
      ss.answer (.stuff σ n v) = (.fault (.undefinedVariable n), ss) := by
  simp only [answer, stuff, h, and_self]

/-- What is stuffed on a variable is written beside its value, in the scope that is asked. -/
theorem answer_stuff_of_some {ss : Scopes} {σ : ScopeId} {n : String} {b : Binding}
    (h : ss.lookup σ n = some b) (v : Value) :
    ss.stuff σ n v = .ok (ss.put σ n { value := b.value, stuffed := some v }) ∧
      ss.answer (.stuff σ n v) = (.value v, ss.put σ n { value := b.value, stuffed := some v }) := by
  simp only [answer, stuff, h, and_self]

/-- Each request binds in a scope what it writes there, and leaves the rest as it was. -/
theorem own_answer (ss : Scopes) (request : Request) (name : String) (id : ScopeId) :
    (ss.answer request).2.own name id =
      ((request.write? ss id name).map Write.binding).or (ss.own name id) := by
  cases request with
  | root => exact own_root ss name id
  | extend parent => exact own_extend ss parent name id
  | assign σ n v =>
    simp only [answer, assign, own_put, Request.write?]
    split <;> rfl
  | stuff σ n v =>
    cases hlookup : ss.lookup σ n with
    | none =>
      obtain ⟨hstuff, hanswer⟩ := answer_stuff_of_none hlookup v
      simp [hanswer, Request.write?, hstuff, Except.isOk, Except.toBool]
    | some b =>
      obtain ⟨hstuff, hanswer⟩ := answer_stuff_of_some hlookup v
      have hvalue : ss.value σ n = .ok b.value := by simp only [value, hlookup]
      simp only [hanswer, Request.write?, hstuff, hvalue, own_put, lt_size_of_lookup hlookup, and_true,
        Except.isOk, Except.toBool]
      split <;> rfl
  | value => rfl
  | stuffed => rfl
  | owns => rfl
  | names => rfl

/-- A scope binds what was last written in it. -/
theorem own_after (history : List Request) (name : String) (id : ScopeId) :
    (after history).own name id = (lastWrite? id name history).map Write.binding := by
  induction history with
  | nil => rfl
  | cons request earlier ih => rw [after, own_answer, ih, lastWrite?, Option.map_or]

end Bindings

section Chains

/-- The scope that looking up goes on to from a scope. -/
def outward? (ss : Scopes) (id : ScopeId) : Option ScopeId := (ss.parent? id).filter (· < id)

/-- The way outwards depends on the parent alone. -/
theorem outward?_congr {ss ss' : Scopes} {id : ScopeId} (h : ss.parent? id = ss'.parent? id) :
    ss.outward? id = ss'.outward? id := by
  rw [outward?, outward?, h]

/-- The way outwards leads to scopes made earlier. -/
theorem lt_of_outward? {ss : Scopes} {id p : ScopeId} (h : ss.outward? id = some p) : p < id := by
  obtain ⟨_, hp⟩ := Option.filter_eq_some_iff.mp h
  exact of_decide_eq_true hp

/-- A name that a scope does not bind is looked up further out. -/
theorem lookup_eq (ss : Scopes) (id : ScopeId) (name : String) :
    ss.lookup id name = (ss.own name id).or ((ss.outward? id).bind (ss.lookup · name)) := by
  rw [lookup, own, outward?, parent?]
  cases ss.get? id with
  | none => rfl
  | some sc =>
    simp only [Option.bind_some]
    cases sc.find? name with
    | some b => rfl
    | none =>
      cases sc.parent with
      | none => rfl
      | some p => by_cases hp : p < id <;> simp [hp, Option.filter]

/-- Writing a binding moves no scope. -/
theorem parent?_put (ss : Scopes) (σ : ScopeId) (n : String) (b : Binding) (id : ScopeId) :
    (ss.put σ n b).parent? id = ss.parent? id := by
  rw [parent?, parent?, get?_put]
  by_cases hid : id = σ
  · subst hid
    rw [if_pos rfl]
    cases ss.get? id <;> rfl
  · rw [if_neg hid]

/-- A new outermost scope leaves the ways outwards as they are. -/
theorem parent?_root (ss : Scopes) (id : ScopeId) : ss.root.2.parent? id = ss.parent? id := by
  rw [parent?, parent?, get?_root]
  by_cases hid : id = ss.size
  · rw [if_pos hid, get?_eq_none hid.ge]
    rfl
  · rw [if_neg hid]

/-- A new scope lies in the one that it extends. -/
theorem parent?_extend (ss : Scopes) (parent id : ScopeId) :
    (ss.extend parent).2.parent? id = if id = ss.size then some parent else ss.parent? id := by
  rw [parent?, parent?, get?_extend]
  split <;> rfl

/-- Requests that make no scope leave the scopes there are where they are. -/
theorem answer_stays (ss : Scopes) {request : Request} (hroot : request ≠ .root)
    (hextend : ∀ parent, request ≠ .extend parent) :
    (ss.answer request).2.size = ss.size ∧ ∀ id, (ss.answer request).2.parent? id = ss.parent? id := by
  cases request with
  | root => exact absurd rfl hroot
  | extend parent => exact absurd rfl (hextend parent)
  | assign σ n v => exact ⟨size_put .., parent?_put ss σ n _⟩
  | stuff σ n v =>
    cases hlookup : ss.lookup σ n with
    | none =>
      rw [(answer_stuff_of_none hlookup v).2]
      exact ⟨rfl, fun _ => rfl⟩
    | some b =>
      rw [(answer_stuff_of_some hlookup v).2]
      exact ⟨size_put .., parent?_put ss σ n _⟩
  | value => exact ⟨rfl, fun _ => rfl⟩
  | stuffed => exact ⟨rfl, fun _ => rfl⟩
  | owns => exact ⟨rfl, fun _ => rfl⟩
  | names => exact ⟨rfl, fun _ => rfl⟩

/-- There are as many scopes as were made. -/
theorem size_after (history : List Request) : (after history).size = made history := by
  induction history with
  | nil => rfl
  | cons request earlier ih =>
    cases request with
    | root => exact (size_root _).trans (congrArg (· + 1) ih)
    | extend parent => exact (size_extend _ parent).trans (congrArg (· + 1) ih)
    | _ => exact (answer_stays _ (by simp) (by simp)).1.trans ih

/-- A further request does not change the way from a scope that is there. -/
theorem chain_cons_of_lt {earlier : List Request} {id : ScopeId} (h : id < made earlier)
    (request : Request) : chain (request :: earlier) id = chain earlier id ∧
      (after (request :: earlier)).outward? id = (after earlier).outward? id ∧
      id < made (request :: earlier) := by
  have hne : id ≠ made earlier := Nat.ne_of_lt h
  have hsize : id ≠ (after earlier).size := (size_after earlier).symm ▸ hne
  cases request with
  | root => exact ⟨if_neg hne, outward?_congr (parent?_root _ id), Nat.lt_succ_of_lt h⟩
  | extend parent =>
    refine ⟨if_neg hne, outward?_congr ?_, Nat.lt_succ_of_lt h⟩
    exact (parent?_extend _ parent id).trans (if_neg hsize)
  | _ => exact ⟨rfl, outward?_congr ((answer_stays _ (by simp) (by simp)).2 id), h⟩

/-- The way outwards goes through the scope that looking up goes on to. -/
theorem chain_eq (history : List Request) (id : ScopeId) :
    chain history id =
      if id < made history then id :: ((after history).outward? id).elim [] (chain history) else [] := by
  induction history generalizing id with
  | nil => rfl
  | cons request earlier ih =>
    by_cases hid : id < made earlier
    · obtain ⟨hchain, hout, hmade⟩ := chain_cons_of_lt hid request
      rw [hchain, hout, if_pos hmade, ih, if_pos hid]
      cases hp : (after earlier).outward? id with
      | none => rfl
      | some p =>
        have hlt : p < made earlier := (lt_of_outward? hp).trans hid
        rw [Option.elim_some, Option.elim_some, (chain_cons_of_lt hlt request).1]
    · have hempty : chain earlier id = [] := by rw [ih, if_neg hid]
      have hpast (hne : id ≠ made earlier) : ¬ id < made earlier + 1 := fun hlt =>
        (Nat.lt_succ_iff_lt_or_eq.mp hlt).elim hid hne
      cases request with
      | root =>
        by_cases hnew : id = made earlier
        · have hparent : (after earlier).parent? id = none := by
            rw [parent?, get?_eq_none ((size_after earlier).trans_le hnew.ge), Option.bind_none]
          have hout : (after (.root :: earlier)).outward? id = none := by
            rw [outward?, after, answer, parent?_root, hparent, Option.filter_none]
          rw [chain, if_pos hnew, hout, made, if_pos (hnew ▸ Nat.lt_succ_self _), Option.elim_none]
        · rw [chain, if_neg hnew, hempty, made, if_neg (hpast hnew)]
      | extend parent =>
        by_cases hnew : id = made earlier
        · have hparent : (after (.extend parent :: earlier)).parent? id = some parent :=
            (parent?_extend _ parent id).trans (if_pos (hnew.trans (size_after earlier).symm))
          rw [chain, if_pos hnew, made, if_pos (hnew ▸ Nat.lt_succ_self _), outward?, hparent]
          by_cases hlt : parent < id
          · have hchain := (chain_cons_of_lt (hnew ▸ hlt) (.extend parent)).1
            rw [Option.filter_some_pos (by simpa using hlt), Option.elim_some, hchain]
          · rw [Option.filter_some_neg (by simpa using hlt), Option.elim_none, ih, if_neg (hnew ▸ hlt)]
        · rw [chain, if_neg hnew, hempty, made, if_neg (hpast hnew)]
      | _ => exact hempty.trans (if_neg hid).symm

/-- The nearest binding of a name is the one of its nearest write. -/
theorem lookup_after (history : List Request) (id : ScopeId) (name : String) :
    (after history).lookup id name = (nearestWrite? history id name).map Write.binding := by
  have halong : (after history).lookup id name = (chain history id).findSome? ((after history).own name) := by
    -- Each scope on the way outwards has a smaller number than the one before it.
    induction id using Nat.strong_induction_on with
    | _ id ih =>
      rw [lookup_eq, chain_eq]
      by_cases hid : id < made history
      · rw [if_pos hid, List.findSome?_cons]
        cases (after history).own name id with
        | some b => rfl
        | none =>
        cases hp : (after history).outward? id with
        | none => rfl
        | some p => exact ih p (lt_of_outward? hp)
      · have hnone : (after history).get? id = none :=
          get?_eq_none ((size_after history).trans_le (Nat.le_of_not_lt hid))
        rw [if_neg hid, own, outward?, parent?, hnone]
        rfl
  rw [halong, nearestWrite?, List.map_findSome?]
  congr 1
  funext s
  exact own_after history name s

end Chains

section Names

/-- The names in a list of bindings are those that can be looked up in it. -/
theorem mem_bound_iff (bs : List (String × Binding)) (n : String) :
    n ∈ bs.map (·.1) ↔ (bs.lookup n).isSome := by
  simp [List.lookup_isSome_iff]

/-- Binding a name keeps each name bound once. -/
theorem nodup_put {bs : List (String × Binding)} (h : (bs.map (·.1)).Nodup) (name : String)
    (b : Binding) : ((Scope.put name b bs).map (·.1)).Nodup := by
  induction bs with
  | nil => exact List.nodup_singleton name
  | cons entry rest ih =>
    obtain ⟨m, old⟩ := entry
    by_cases hm : m = name
    · rw [Scope.put, if_pos hm]
      exact hm ▸ h
    · rw [Scope.put, if_neg hm]
      obtain ⟨hfresh, hrest⟩ := List.nodup_cons.mp h
      apply List.nodup_cons.mpr
      refine ⟨?_, ih hrest⟩
      rw [mem_bound_iff, Scope.lookup_put, if_neg hm, ← mem_bound_iff]
      exact hfresh

/-- Every scope binds each name once. -/
def Tidy (ss : Scopes) : Prop :=
  ∀ id sc, ss.get? id = some sc → (sc.bindings.map (·.1)).Nodup

/-- Writing a binding binds no name twice. -/
theorem Tidy.put {ss : Scopes} (h : ss.Tidy) (σ : ScopeId) (n : String) (b : Binding) :
    (ss.put σ n b).Tidy := by
  intro id sc hget
  rw [get?_put] at hget
  by_cases hid : id = σ
  · rw [if_pos hid] at hget
    obtain ⟨old, hold, rfl⟩ := Option.map_eq_some_iff.mp hget
    exact nodup_put (h σ old hold) n b
  · rw [if_neg hid] at hget
    exact h id sc hget

/-- No request binds a name twice. -/
theorem Tidy.answer {ss : Scopes} (h : ss.Tidy) (request : Request) : (ss.answer request).2.Tidy := by
  have hfresh {id : ScopeId} {fresh sc : Scope} (hnew : fresh.bindings = [])
      (hget : (if id = ss.size then some fresh else ss.get? id) = some sc) :
      (sc.bindings.map (·.1)).Nodup := by
    by_cases hid : id = ss.size
    · rw [if_pos hid] at hget
      rw [← Option.some.inj hget, hnew]
      exact List.nodup_nil
    · rw [if_neg hid] at hget
      exact h id sc hget
  cases request with
  | root => exact fun id sc hget => hfresh rfl ((get?_root ss id).symm.trans hget)
  | extend parent => exact fun id sc hget => hfresh rfl ((get?_extend ss parent id).symm.trans hget)
  | assign σ n v => exact h.put σ n _
  | stuff σ n v =>
    cases hlookup : ss.lookup σ n with
    | none => exact (answer_stuff_of_none hlookup v).2 ▸ h
    | some b => exact (answer_stuff_of_some hlookup v).2 ▸ h.put σ n _
  | value => exact h
  | stuffed => exact h
  | owns => exact h
  | names => exact h

/-- After any requests no name is bound twice in a scope. -/
theorem tidy_after (history : List Request) : (after history).Tidy := by
  induction history with
  | nil => exact fun id sc hget => absurd hget (by simp [get?, after])
  | cons request earlier ih => exact ih.answer request

/-- The names of a scope are those that it binds itself. -/
theorem mem_names_iff (ss : Scopes) (id : ScopeId) (n : String) :
    n ∈ ss.names id ↔ (ss.own n id).isSome := by
  rw [names, own]
  cases ss.get? id with
  | none => simp
  | some sc =>
    rw [Option.map_some, Option.getD_some, Scope.names, List.mem_mergeSort, mem_bound_iff]
    rfl

/-- The names of a scope stand in order, each once. -/
theorem Tidy.pairwise_names {ss : Scopes} (h : ss.Tidy) (id : ScopeId) :
    (ss.names id).Pairwise (· < ·) := by
  rw [names]
  cases hget : ss.get? id with
  | none => exact List.Pairwise.nil
  | some sc =>
    rw [Option.map_some, Option.getD_some, Scope.names]
    have hsorted : ((sc.bindings.map (·.1)).mergeSort (fun a b => a ≤ b)).Pairwise (· ≤ ·) :=
      List.sortedLE_mergeSort.pairwise
    have hperm := List.mergeSort_perm (sc.bindings.map (·.1)) (fun a b => a ≤ b)
    have hnodup := hperm.nodup_iff.mpr (h id sc hget)
    exact hsorted.imp₂ (fun a b hle hne => lt_of_le_of_ne hle hne) hnodup

end Names

/-- **Scopes follow the history of their writes.** Where a name was never written, from a scope
outwards, it has neither a value nor anything stuffed on it, and nothing can be stuffed on it. Otherwise
the last write in the nearest scope that has had any tells its value and what is stuffed on it. A scope
owns and lists the names that were written in it, and no others. -/
theorem scopes_follow_history (history : List Request) (id : ScopeId) (name : String) :
    let ss := after history
    (nearestWrite? history id name = none →
      ss.answer (.value id name) = (.fault (.undefinedVariable name), ss) ∧
      (∀ v, ss.answer (.stuff id name v) = (.fault (.undefinedVariable name), ss)) ∧
      ss.answer (.stuffed id name) = (.fault (.undefinedStuff name), ss)) ∧
    (∀ write, nearestWrite? history id name = some write →
      ss.answer (.value id name) = (.value write.primary, ss) ∧
      (∀ v, (ss.answer (.stuff id name v)).1 = .value v) ∧
      (∀ v, ss.answer (.stuffed id name) = (.value v, ss) ↔ ∃ before, write = .stuffed before v) ∧
      (∀ v, write = .assigned v →
        ss.answer (.stuffed id name) = (.fault (.undefinedStuff name), ss))) ∧
    ss.answer (.owns id name) = (.truth (lastWrite? id name history).isSome, ss) ∧
    ∃ ns, ss.answer (.names id) = (.names ns, ss) ∧ ns.Pairwise (· < ·) ∧
      ∀ n, n ∈ ns ↔ (lastWrite? id n history).isSome := by
  intro ss
  have hlookup : ss.lookup id name = (nearestWrite? history id name).map Write.binding :=
    lookup_after history id name
  refine ⟨fun hnone => ?_, fun write hwrite => ?_, ?_, ss.names id, rfl, ?_, fun n => ?_⟩
  · rw [hnone, Option.map_none] at hlookup
    refine ⟨?_, fun v => (answer_stuff_of_none hlookup v).2, ?_⟩
    · simp only [answer, value, hlookup, Answer.ofExcept]
    · simp only [answer, stuffed, hlookup, Answer.ofExcept]
  · rw [hwrite, Option.map_some] at hlookup
    have hstuff (v : Value) : (ss.answer (.stuff id name v)).1 = .value v :=
      congrArg Prod.fst (answer_stuff_of_some hlookup v).2
    have hvalue : ss.answer (.value id name) = (.value write.binding.value, ss) := by
      simp only [answer, value, hlookup, Answer.ofExcept]
    cases write with
    | assigned u =>
      refine ⟨hvalue, hstuff, ?_⟩
      simp [answer, stuffed, hlookup, Answer.ofExcept, Write.binding]
    | stuffed u w =>
      refine ⟨hvalue, hstuff, ?_⟩
      simp [answer, stuffed, hlookup, Answer.ofExcept, Write.binding]
  · have hown := own_after history name id
    rw [answer, owns, ← own, hown, Option.isSome_map]
  · exact (tidy_after history).pairwise_names id
  · rw [mem_names_iff, own_after, Option.isSome_map]

/-- A name stuffed in an inner scope keeps the value that it had then, when it is assigned again further
out. -/
theorem scopes_follow_history_inner :
    let history : List Request :=
      [.assign 0 "x" (.string "2"), .stuff 1 "x" (.string "meta"), .assign 0 "x" (.string "1"), .extend 0,
        .root]
    let write := Write.stuffed (.string "1") (.string "meta")
    nearestWrite? history 1 "x" = some write ∧ nearestWrite? history 1 "y" = none ∧
      (after history).answer (.value 1 "x") = (.value (.string "1"), after history) ∧
      (after history).answer (.value 1 "y") = (.fault (.undefinedVariable "y"), after history) := by
  intro history write
  have hx : nearestWrite? history 1 "x" = some write := by with_unfolding_all rfl
  have hy : nearestWrite? history 1 "y" = none := by with_unfolding_all rfl
  exact ⟨hx, hy, ((scopes_follow_history history 1 "x").2.1 write hx).1,
    ((scopes_follow_history history 1 "y").1 hy).1⟩

end Scopes

end StuffScript
