import Mathlib
import ScriptEngine.Value.Lookup

/-!
# Inherited members are found depth first

A path of links leads from a record to one that it inherits from. The paths in lexicographic
order, each one before its extensions, are the order of a depth first search from left to
right. Looking a member up gives it as the first record in this order has it, among the
paths that are not too long. Records may inherit from each other in circles and along many
paths to the same record; the search ends nevertheless. Where no path is too long it is the
search without a limit (`Heap.lookup_finds_first_owner`).
-/

set_option autoImplicit false

namespace ScriptEngine.Heap

/-- The records that a record inherits from directly, from left to right. -/
def supers (heap : Heap) (reference : RecordRef) : List RecordRef :=
  match (heap.record reference).get? superMember with
  | some (.record parent) => [parent]
  | some (.array parents) => (heap.array parents).toList.filterMap Value.recordRef?
  | _ => []

/-- The record to which a path leads. A path says for each of its links how many of the
parents are left of the one that it goes to. -/
def follow (heap : Heap) : List Nat → RecordRef → Option RecordRef
  | [], reference => some reference
  | link :: path, reference => (heap.supers reference)[link]?.bind (heap.follow path)

/-- The own member that the record at the end of a path has under the name. -/
def memberAt (heap : Heap) (name : String) (path : List Nat) (reference : RecordRef) :
    Option Value :=
  (heap.follow path reference).bind fun owner => (heap.record owner).get? name

/-- The member is that of the first record in depth first order, along paths of at most
`links` links. -/
def FirstWithin (heap : Heap) (name : String) (links : Nat) (reference : RecordRef)
    (value : Value) : Prop :=
  ∃ path, path.length ≤ links ∧ heap.memberAt name path reference = some value ∧
    ∀ earlier < path, earlier.length ≤ links → heap.memberAt name earlier reference = none

/-- The depth first search for a member through records that are reached by `depth` links,
and what it comes to. If there is a limit, records that are reached by as many links are
not left for their parents. -/
inductive Searches (heap : Heap) (name : String) (limit : Option Nat) :
    Nat → List RecordRef → Option Value → Prop where
  | exhausted (depth : Nat) : Searches heap name limit depth [] none
  | own {depth : Nat} {reference : RecordRef} {others : List RecordRef} {value : Value}
      (held : (heap.record reference).get? name = some value) :
      Searches heap name limit depth (reference :: others) (some value)
  | inherited {depth : Nat} {reference : RecordRef} {others : List RecordRef} {value : Value}
      (missing : (heap.record reference).get? name = none) (below : limit ≠ some depth)
      (found : Searches heap name limit (depth + 1) (heap.supers reference) (some value)) :
      Searches heap name limit depth (reference :: others) (some value)
  | further {depth : Nat} {reference : RecordRef} {others : List RecordRef}
      {answer : Option Value} (missing : (heap.record reference).get? name = none)
      (below : limit ≠ some depth)
      (nothing : Searches heap name limit (depth + 1) (heap.supers reference) none)
      (rest : Searches heap name limit depth others answer) :
      Searches heap name limit depth (reference :: others) answer
  | cutOff {depth : Nat} {reference : RecordRef} {others : List RecordRef}
      {answer : Option Value} (missing : (heap.record reference).get? name = none)
      (reached : limit = some depth) (rest : Searches heap name limit depth others answer) :
      Searches heap name limit depth (reference :: others) answer

section

variable {heap : Heap} {name : String}

/-!
## One link more
-/

theorem lookupWithin_own {reference : RecordRef} {value : Value} (links : Nat)
    (held : (heap.record reference).get? name = some value) :
    heap.lookupWithin name links reference = some value := by
  unfold lookupWithin
  simp only [held]

theorem lookupWithin_zero {reference : RecordRef}
    (missing : (heap.record reference).get? name = none) :
    heap.lookupWithin name 0 reference = none := by
  unfold lookupWithin
  simp only [missing]

/-- Values that are no records are passed over. -/
theorem findSome?_recordRefs {α : Type} (search : RecordRef → Option α) (values : List Value) :
    (values.filterMap Value.recordRef?).findSome? search =
      values.findSome? fun
        | .record parent => search parent
        | _ => none := by
  induction values with
  | nil => rfl
  | cons value rest ih =>
      cases value with
      | record parent =>
          rw [List.filterMap_cons_some (f := Value.recordRef?) rfl, List.findSome?_cons,
            List.findSome?_cons, ih]
      | none | number | text | bool | array | function => exact ih

/-- A record without the member has it from the first of its parents that gives one. -/
theorem lookupWithin_succ {reference : RecordRef} (links : Nat)
    (missing : (heap.record reference).get? name = none) :
    heap.lookupWithin name (links + 1) reference =
      (heap.supers reference).findSome? (heap.lookupWithin name links) := by
  conv_lhs => unfold lookupWithin
  simp only [missing, supers]
  split
  · next links' parent same inherits =>
      obtain rfl := Nat.succ.inj same
      simp only [inherits, List.findSome?_singleton]
  · next links' parents same inherits =>
      obtain rfl := Nat.succ.inj same
      simp only [inherits]
      exact (findSome?_recordRefs _ _).symm
  · next single several =>
      split
      · next parent inherits => exact (single links parent rfl inherits).elim
      · next parents inherits => exact (several links parents rfl inherits).elim
      · rfl

theorem memberAt_nil (reference : RecordRef) :
    heap.memberAt name [] reference = (heap.record reference).get? name := rfl

theorem memberAt_cons (link : Nat) (path : List Nat) (reference : RecordRef) :
    heap.memberAt name (link :: path) reference =
      (heap.supers reference)[link]?.bind (heap.memberAt name path) := by
  simp only [memberAt, follow]
  cases (heap.supers reference)[link]? <;> rfl

/-!
## The first record in the order
-/

theorem firstWithin_own {reference : RecordRef} {value : Value} (links : Nat)
    (held : (heap.record reference).get? name = some value) :
    heap.FirstWithin name links reference value :=
  ⟨[], Nat.zero_le _, held, fun earlier before => (List.not_lt_nil earlier before).elim⟩

/-- If the record itself does not have the member, the first one that does is the first one
below the first parent that leads to any. -/
theorem firstWithin_succ {reference : RecordRef} (links : Nat) (value : Value)
    (missing : (heap.record reference).get? name = none) :
    heap.FirstWithin name (links + 1) reference value ↔
      ∃ (link : Nat) (parent : RecordRef), (heap.supers reference)[link]? = some parent ∧
        heap.FirstWithin name links parent value ∧
        ∀ other < link, ∀ uncle, (heap.supers reference)[other]? = some uncle →
          ∀ path, path.length ≤ links → heap.memberAt name path uncle = none := by
  constructor
  · rintro ⟨path, short, found, first⟩
    cases path with
    | nil => rw [memberAt_nil, missing] at found; cases found
    | cons link path =>
        rw [memberAt_cons] at found
        obtain ⟨parent, inherits, found⟩ := Option.bind_eq_some_iff.mp found
        refine ⟨link, parent, inherits, ⟨path, Nat.le_of_succ_le_succ short, found, ?_⟩, ?_⟩
        · intro earlier before fits
          have none := first (link :: earlier) (List.cons_lt_cons_self.mpr before)
            (Nat.succ_le_succ fits)
          rwa [memberAt_cons, inherits] at none
        · intro other left uncle there path fits
          have none := first (other :: path) (List.cons_lt_cons_iff.mpr (.inl left))
            (Nat.succ_le_succ fits)
          rwa [memberAt_cons, there] at none
  · rintro ⟨link, parent, inherits, ⟨path, short, found, first⟩, others⟩
    refine ⟨link :: path, Nat.succ_le_succ short, ?_, ?_⟩
    · rw [memberAt_cons, inherits]
      exact found
    · intro earlier before fits
      cases earlier with
      | nil => exact missing
      | cons other earlier =>
          rw [memberAt_cons]
          cases there : (heap.supers reference)[other]? with
          | none => rfl
          | some uncle =>
              rcases List.cons_lt_cons_iff.mp before with left | ⟨rfl, shorter⟩
              · exact others other left uncle there earlier (Nat.le_of_succ_le_succ fits)
              · obtain rfl := Option.some.inj (inherits.symm.trans there)
                exact first earlier shorter (Nat.le_of_succ_le_succ fits)

/-- The search along paths with so many links finds something wherever one of them leads to
a record with the member. -/
theorem lookupWithin_isSome (links : Nat) (reference : RecordRef) :
    (heap.lookupWithin name links reference).isSome = true ↔
      ∃ path, path.length ≤ links ∧ (heap.memberAt name path reference).isSome = true := by
  induction links generalizing reference with
  | zero =>
      cases own : (heap.record reference).get? name with
      | some value =>
          rw [lookupWithin_own 0 own]
          exact ⟨fun _ => ⟨[], Nat.le_refl 0, by rw [memberAt_nil, own]; rfl⟩, fun _ => rfl⟩
      | none =>
          rw [lookupWithin_zero own]
          refine ⟨nofun, ?_⟩
          rintro ⟨path, short, found⟩
          obtain rfl := List.length_eq_zero_iff.mp (Nat.le_zero.mp short)
          rw [memberAt_nil, own] at found
          exact found
  | succ links ih =>
      cases own : (heap.record reference).get? name with
      | some value =>
          rw [lookupWithin_own (links + 1) own]
          exact ⟨fun _ => ⟨[], Nat.zero_le _, by rw [memberAt_nil, own]; rfl⟩, fun _ => rfl⟩
      | none =>
          rw [lookupWithin_succ links own, List.findSome?_isSome_iff]
          constructor
          · rintro ⟨parent, member, found⟩
            obtain ⟨link, inherits⟩ := List.getElem?_of_mem member
            obtain ⟨path, short, found⟩ := (ih parent).mp found
            exact ⟨link :: path, Nat.succ_le_succ short, by rwa [memberAt_cons, inherits]⟩
          · rintro ⟨path, short, found⟩
            cases path with
            | nil => rw [memberAt_nil, own] at found; cases found
            | cons link path =>
                rw [memberAt_cons, Option.isSome_bind] at found
                obtain ⟨parent, inherits, found⟩ := (Option.any_eq_true _ _).mp found
                exact ⟨parent, List.mem_of_getElem? inherits,
                  (ih parent).mpr ⟨path, Nat.le_of_succ_le_succ short, found⟩⟩

/-- What is looked up is the member of the first record in depth first order. -/
theorem lookupWithin_first (links : Nat) (reference : RecordRef) (value : Value) :
    heap.lookupWithin name links reference = some value ↔
      heap.FirstWithin name links reference value := by
  induction links generalizing reference value with
  | zero =>
      constructor
      · intro found
        cases own : (heap.record reference).get? name with
        | some held =>
            rw [lookupWithin_own 0 own] at found
            exact firstWithin_own 0 (own.trans found)
        | none => rw [lookupWithin_zero own] at found; cases found
      · rintro ⟨path, short, found, _⟩
        obtain rfl := List.length_eq_zero_iff.mp (Nat.le_zero.mp short)
        exact lookupWithin_own 0 found
  | succ links ih =>
      cases own : (heap.record reference).get? name with
      | some held =>
          rw [lookupWithin_own (links + 1) own]
          constructor
          · rintro ⟨⟩
            exact firstWithin_own (links + 1) own
          · rintro ⟨path, _, found, first⟩
            cases path with
            | nil => exact own.symm.trans found
            | cons link path =>
                have missing := first [] (List.nil_lt_cons link path) (Nat.zero_le _)
                rw [memberAt_nil, own] at missing
                cases missing
      | none =>
          rw [lookupWithin_succ links own, firstWithin_succ links value own,
            List.findSome?_eq_some_iff]
          constructor
          -- Parents to the left give nothing, so no path that goes through them finds anything.
          · rintro ⟨left, parent, right, split, found, nothing⟩
            refine ⟨left.length, parent, by simp [split], (ih parent value).mp found, ?_⟩
            intro other before uncle there path fits
            rw [split, List.getElem?_append_left before] at there
            have none := nothing uncle (List.mem_of_getElem? there)
            by_contra found
            have some := (lookupWithin_isSome links uncle).mpr
              ⟨path, fits, Option.isSome_iff_ne_none.mpr found⟩
            rw [none] at some
            cases some
          · rintro ⟨link, parent, inherits, first, others⟩
            obtain ⟨there, same⟩ := List.getElem?_eq_some_iff.mp inherits
            refine ⟨(heap.supers reference).take link, parent,
              (heap.supers reference).drop (link + 1), ?_, (ih parent value).mpr first, ?_⟩
            · rw [← same, List.getElem_cons_drop, List.take_append_drop]
            · intro uncle member
              obtain ⟨other, before, rfl⟩ := List.mem_take_iff_getElem.mp member
              have left : other < link := Nat.lt_of_lt_of_le before (Nat.min_le_left _ _)
              have nothing := others other left _
                (List.getElem?_eq_getElem (Nat.lt_trans left there))
              refine Option.not_isSome_iff_eq_none.mp fun found => ?_
              obtain ⟨path, fits, found⟩ := (lookupWithin_isSome links _).mp found
              rw [nothing path fits] at found
              cases found

/-!
## The search as it goes on
-/

theorem Searches.unique {limit : Option Nat} {depth : Nat} {references : List RecordRef}
    {answer other : Option Value} (searches : heap.Searches name limit depth references answer)
    (another : heap.Searches name limit depth references other) : answer = other := by
  induction searches generalizing other with
  | exhausted => cases another; rfl
  | own held =>
      cases another with
      | own held' => exact held.symm.trans held'
      | inherited missing | further missing | cutOff missing =>
          rw [held] at missing
          cases missing
  | inherited missing below _ ih =>
      cases another with
      | own held => rw [missing] at held; cases held
      | inherited _ _ found => exact ih found
      | further _ _ nothing => cases ih nothing
      | cutOff _ reached => exact (below reached).elim
  | further missing below _ _ nothingIH restIH =>
      cases another with
      | own held => rw [missing] at held; cases held
      | inherited _ _ found => cases nothingIH found
      | further _ _ _ rest => exact restIH rest
      | cutOff _ reached => exact (below reached).elim
  | cutOff missing reached _ ih =>
      cases another with
      | own held => rw [missing] at held; cases held
      | inherited _ below | further _ below => exact (below reached).elim
      | cutOff _ _ rest => exact ih rest

/-- No path from the record has more links. -/
def Shallow (heap : Heap) (links : Nat) (reference : RecordRef) : Prop :=
  ∀ path owner, heap.follow path reference = some owner → path.length ≤ links

theorem shallow_zero (reference : RecordRef) :
    heap.Shallow 0 reference ↔ heap.supers reference = [] := by
  constructor
  · intro shallow
    cases parents : heap.supers reference with
    | nil => rfl
    | cons parent rest =>
        have long := shallow [0] parent (by simp [follow, parents])
        exact absurd long (by decide)
  · intro orphan path owner leads
    cases path with
    | nil => exact Nat.le_refl 0
    | cons link path => simp [follow, orphan] at leads

theorem shallow_succ (links : Nat) (reference : RecordRef) :
    heap.Shallow (links + 1) reference ↔
      ∀ parent ∈ heap.supers reference, heap.Shallow links parent := by
  constructor
  · intro shallow parent inherits path owner leads
    obtain ⟨link, there⟩ := List.getElem?_of_mem inherits
    refine Nat.le_of_succ_le_succ (shallow (link :: path) owner ?_)
    simp only [follow, there, Option.bind_some, leads]
  · intro parents path owner leads
    cases path with
    | nil => exact Nat.zero_le _
    | cons link path =>
        obtain ⟨parent, there, leads⟩ := Option.bind_eq_some_iff.mp leads
        exact Nat.succ_le_succ (parents parent (List.mem_of_getElem? there) path owner leads)

/-- The search comes to an end if there is a limit, or if no paths are longer than that. -/
theorem searches_lookupWithin {limit : Option Nat} (links : Nat) {depth : Nat}
    (references : List RecordRef)
    (ends : limit = some (depth + links) ∨
      limit = none ∧ ∀ reference ∈ references, heap.Shallow links reference) :
    heap.Searches name limit depth references
      (references.findSome? (heap.lookupWithin name links)) := by
  -- The outer induction goes down to the parents, the inner one along the row of records.
  induction links generalizing depth references with
  | zero =>
      induction references with
      | nil => exact .exhausted depth
      | cons reference others othersIH =>
          have rest := othersIH (ends.imp_right fun ⟨unlimited, shallow⟩ =>
            ⟨unlimited, fun other member => shallow other (List.mem_cons_of_mem _ member)⟩)
          rw [List.findSome?_cons]
          cases own : (heap.record reference).get? name with
          | some value =>
              rw [lookupWithin_own 0 own]
              exact .own own
          | none =>
              rw [lookupWithin_zero own]
              rcases ends with limited | ⟨unlimited, shallow⟩
              · exact .cutOff own limited rest
              · have orphan := (shallow_zero reference).mp (shallow reference List.mem_cons_self)
                have nothing : heap.Searches name limit (depth + 1) (heap.supers reference) none :=
                  orphan ▸ .exhausted (depth + 1)
                exact .further own (by rw [unlimited]; nofun) nothing rest
  | succ links ih =>
      induction references with
      | nil => exact .exhausted depth
      | cons reference others othersIH =>
          have rest := othersIH (ends.imp_right fun ⟨unlimited, shallow⟩ =>
            ⟨unlimited, fun other member => shallow other (List.mem_cons_of_mem _ member)⟩)
          have below : limit ≠ some depth := by
            rcases ends with limited | ⟨unlimited, _⟩
            · rw [limited]
              intro same
              have := Option.some.inj same
              omega
            · rw [unlimited]
              nofun
          rw [List.findSome?_cons]
          cases own : (heap.record reference).get? name with
          | some value =>
              rw [lookupWithin_own (links + 1) own]
              exact .own own
          | none =>
              have parents := @ih (depth + 1) (heap.supers reference)
                (ends.imp (fun limited => by rw [limited]; congr 1; omega)
                  fun ⟨unlimited, shallow⟩ => ⟨unlimited,
                    (shallow_succ links reference).mp (shallow reference List.mem_cons_self)⟩)
              rw [lookupWithin_succ links own]
              cases found : (heap.supers reference).findSome? (heap.lookupWithin name links) with
              | some value => exact .inherited own below (found ▸ parents)
              | none => exact .further own below (found ▸ parents) rest

end

/-- Whatever records there are and however they inherit from each other, looking a member up
ends: the depth first search from left to right that leaves no record behind 32 links for its
parents comes to an answer, and this is what is looked up. There is a value exactly if a
record with the member can be reached by at most 32 links, and then it is that of the first
such record in depth first order. If no path is longer, then the search without a limit
ends as well and gives the same. -/
theorem lookup_finds_first_owner (heap : Heap) (name : String) (reference : RecordRef) :
    (∀ answer, heap.Searches name (some 32) 0 [reference] answer ↔
      heap.lookup reference name = answer) ∧
    ((heap.lookup reference name).isSome = true ↔
      ∃ path owner, path.length ≤ 32 ∧ heap.follow path reference = some owner ∧
        (heap.record owner).contains name = true) ∧
    (∀ value, heap.lookup reference name = some value ↔
      ∃ path, path.length ≤ 32 ∧ heap.memberAt name path reference = some value ∧
        ∀ earlier < path, earlier.length ≤ 32 →
          heap.memberAt name earlier reference = none) ∧
    ((∀ path owner, heap.follow path reference = some owner → path.length ≤ 32) →
      ∀ answer, heap.Searches name none 0 [reference] answer ↔
        heap.lookup reference name = answer) := by
  have decided {limit : Option Nat} (ends : limit = some 32 ∨
      limit = none ∧ ∀ root ∈ [reference], heap.Shallow 32 root) (answer : Option Value) :
      heap.Searches name limit 0 [reference] answer ↔ heap.lookup reference name = answer := by
    have searches : heap.Searches name limit 0 [reference] _ :=
      searches_lookupWithin 32 [reference] ends
    rw [List.findSome?_singleton] at searches
    exact ⟨searches.unique, fun same => same ▸ searches⟩
  refine ⟨decided (.inl rfl), ?_, lookupWithin_first 32 reference, fun short => decided
    (.inr ⟨rfl, List.forall_mem_singleton.mpr short⟩)⟩
  refine (lookupWithin_isSome 32 reference).trans ?_
  constructor
  · rintro ⟨path, short, found⟩
    rw [memberAt, Option.isSome_bind] at found
    obtain ⟨owner, leads, owns⟩ := (Option.any_eq_true _ _).mp found
    exact ⟨path, owner, short, leads, owns⟩
  · rintro ⟨path, owner, short, leads, owns⟩
    exact ⟨path, short, by rw [memberAt, leads]; exact owns⟩

/-- The first record inherits from the second and the third one, with a text between them.
Both have what it looks for: the third one itself, and the second one because it inherits
from the fourth. The search goes through the second one first. -/
theorem lookup_finds_first_owner_behind_parent :
    ∃ (heap : Heap) (first : RecordRef),
      heap.supers first = [⟨1⟩, ⟨2⟩] ∧ heap.supers ⟨1⟩ = [⟨3⟩] ∧
      heap.memberAt "a" [1] first = some (.text "near") ∧
      (∀ path owner, heap.follow path first = some owner → path.length ≤ 32) ∧
      heap.Searches "a" none 0 [first] (some (.text "far")) ∧
      heap.lookup first "a" = some (.text "far") ∧
      ∃ path, path.length ≤ 32 ∧ heap.memberAt "a" path first = some (.text "far") ∧
        ∀ earlier < path, earlier.length ≤ 32 → heap.memberAt "a" earlier first = none := by
  let member (name : String) (value : Value) : Record := ⟨[(name, value)], by simp⟩
  let heap : Heap :=
    ⟨#[#[.record ⟨1⟩, .text "b", .record ⟨2⟩]],
      #[member superMember (.array ⟨0⟩), member superMember (.record ⟨3⟩),
        member "a" (.text "near"), member "a" (.text "far")], #[]⟩
  have parents : heap.supers ⟨0⟩ = [⟨1⟩, ⟨2⟩] := rfl
  have parent : heap.supers ⟨1⟩ = [⟨3⟩] := rfl
  have shallow : heap.Shallow 2 ⟨0⟩ := by
    have orphans : heap.supers ⟨2⟩ = [] ∧ heap.supers ⟨3⟩ = [] := by cbv
    simp [shallow_succ, shallow_zero, parents, parent, orphans]
  have short : ∀ path owner, heap.follow path ⟨0⟩ = some owner → path.length ≤ 32 :=
    fun path owner leads => Nat.le_trans (shallow path owner leads) (by decide)
  have found : heap.lookup ⟨0⟩ "a" = some (.text "far") := by cbv
  obtain ⟨_, _, first, unlimited⟩ := heap.lookup_finds_first_owner "a" ⟨0⟩
  exact ⟨heap, ⟨0⟩, parents, parent, rfl, short, (unlimited short _).mpr found, found,
    (first _).mp found⟩

end ScriptEngine.Heap
