import Mathlib.Logic.Relation
import Mathlib.Tactic.SplitIfs
import ScriptCore.Proofs.Heap.Sound
import ScriptCore.Rendering

/-!
# What is shown of a value

`Heap.Unfolds` says which text the unfolding of a value into a tree has: a container is shown with
what is in it, unless the same container is already one of those around, which have only its
placeholder in that place.  No level and no list in progress is mentioned.

A rendering that keeps the containers in progress in one list for all of it is `Heap.display`: it
puts a container on the list, shows what is in it, and takes it off again.  Each container that is
entered is one fewer to enter, so the levels never run out (`Unfolds.display_eq`), and whatever is
shown, the list is left as it was.  The unfolding exists (`unfolds_renderWithin`) and is the only
one (`Unfolds.unique`), so this is the text that `Heap.render` gives.

The text depends on the containers around only as far as they are met again
(`Unfolds.congr_path`).  A container that is not within itself meets none of those around it, so
wherever it is met it is shown as it is by itself (`Met.unfolds_render`).
-/

namespace ScriptCore.Heap

open Relation

/-- The text of the tree into which a value unfolds inside the given containers. -/
inductive Unfolds (h : Heap) : List Container → Value → String → Prop
  | leaf {path : List Container} {value : Value} (hleaf : shown? value = none) :
      Unfolds h path value (h.shallowText value)
  | list_again {path : List Container} {address : Address} (hagain : .list address ∈ path) :
      Unfolds h path (.list address) "[...]"
  | dict_again {path : List Container} {address : Address} (hagain : .dict address ∈ path) :
      Unfolds h path (.dict address) "\x7b...\x7d"
  | struct_again {path : List Container} {address : Address} (hagain : .struct address ∈ path) :
      Unfolds h path (.struct address) ((h.module (h.struct address).kind).name ++ "(...)")
  | list {path : List Container} {address : Address} {text : Value → String}
      (hnew : .list address ∉ path)
      (hitems : ∀ item ∈ (h.list address).toList,
        Unfolds h (.list address :: path) item (text item)) :
      Unfolds h path (.list address)
        ("[" ++ ", ".intercalate ((h.list address).toList.map text) ++ "]")
  | dict {path : List Container} {address : Address} {text : Value → String}
      (hnew : .dict address ∉ path)
      (hkeys : ∀ entry ∈ (h.dict address).entries,
        Unfolds h (.dict address :: path) entry.1 (text entry.1))
      (hitems : ∀ entry ∈ (h.dict address).entries,
        Unfolds h (.dict address :: path) entry.2 (text entry.2)) :
      Unfolds h path (.dict address)
        ("\x7b" ++ ", ".intercalate ((h.dict address).entries.map fun entry =>
          text entry.1 ++ ": " ++ text entry.2) ++ "\x7d")
  | struct {path : List Container} {address : Address} {text : Value → String}
      (hnew : .struct address ∉ path)
      (hfields : ∀ field ∈ (h.struct address).fields.entries,
        Unfolds h (.struct address :: path) field.2 (text field.2)) :
      Unfolds h path (.struct address)
        ((h.module (h.struct address).kind).name ++ "(" ++
          ", ".intercalate ((h.struct address).fields.entries.map fun field =>
            field.1 ++ "=" ++ text field.2) ++ ")")

/-! ## Rendering with a list of the containers in progress -/

/-- Shows the contents of a container that is not yet in progress; it is in progress meanwhile. -/
def renderOnce (container : Container) (placeholder : String)
    (contents : StateT (List Container) Option String) :
    StateT (List Container) Option String := do
  if container ∈ (← get) then return placeholder
  modify (container :: ·)
  let text ← contents
  modify (·.filter (· ≠ container))
  return text

/-- Shows a value; there is no text if the levels run out. -/
def display (h : Heap) : Nat → Value → StateT (List Container) Option String
  | 0, _ => failure
  | levels + 1, .list address => renderOnce (.list address) "[...]" do
      let texts ← (h.list address).toList.mapM (h.display levels)
      return "[" ++ ", ".intercalate texts ++ "]"
  | levels + 1, .dict address => renderOnce (.dict address) "\x7b...\x7d" do
      let texts ← (h.dict address).entries.mapM fun entry => do
        let key ← h.display levels entry.1
        let item ← h.display levels entry.2
        return key ++ ": " ++ item
      return "\x7b" ++ ", ".intercalate texts ++ "\x7d"
  | levels + 1, .struct address =>
      let name := (h.module (h.struct address).kind).name
      renderOnce (.struct address) (name ++ "(...)") do
        let texts ← (h.struct address).fields.entries.mapM fun field => do
          let item ← h.display levels field.2
          return field.1 ++ "=" ++ item
        return name ++ "(" ++ ", ".intercalate texts ++ ")"
  | _ + 1, value => return h.shallowText value

/-- A value stands in another one and is shown with it. -/
inductive ShownIn (h : Heap) : Value → Value → Prop
  | intro {outer inner : Value} {container : Container} (hshown : shown? outer = some container)
      (hinner : inner ∈ h.shownContents container) : ShownIn h inner outer

/-- Showing a value comes to another one inside the given containers. -/
inductive Met (h : Heap) (value : Value) : List Container → Value → Prop
  | here : Met h value [] value
  | inside {path : List Container} {outer inner : Value} {container : Container}
      (houter : Met h value path outer) (hshown : shown? outer = some container)
      (hnew : container ∉ path) (hinner : inner ∈ h.shownContents container) :
      Met h value (container :: path) inner

variable {h : Heap} {path : List Container} {value : Value} {text : String} {levels : Nat}
  {container : Container}

/-! ## Containers that are left to be shown -/

/-- The containers that were made and are shown with what is in them. -/
def showable (h : Heap) : List Container :=
  (List.range h.lists.size).map .list ++ (List.range h.dicts.size).map .dict ++
    (List.range h.structs.size).map .struct

/-- How many of them are not in progress. -/
def left (h : Heap) (path : List Container) : Nat :=
  (h.showable.filter (· ∉ path)).length

theorem left_le_containerCount (h : Heap) (path : List Container) :
    h.left path ≤ h.containerCount := by
  refine (List.length_filter_le _ _).trans ?_
  simp only [showable, List.length_append, List.length_map, List.length_range]
  unfold containerCount
  omega

section Contents

variable {address : Address}

theorem key_mem_shownContents {entry : Value × Value} (hentry : entry ∈ (h.dict address).entries) :
    entry.1 ∈ h.shownContents (.dict address) :=
  List.mem_flatMap.2 ⟨entry, hentry, by simp⟩

theorem item_mem_shownContents {entry : Value × Value}
    (hentry : entry ∈ (h.dict address).entries) : entry.2 ∈ h.shownContents (.dict address) :=
  List.mem_flatMap.2 ⟨entry, hentry, by simp⟩

theorem field_mem_shownContents {field : String × Value}
    (hfield : field ∈ (h.struct address).fields.entries) :
    field.2 ∈ h.shownContents (.struct address) :=
  List.mem_map_of_mem hfield

end Contents

/-- A container with something in it was made. -/
theorem mem_showable {inner : Value} (hinner : inner ∈ h.shownContents container) :
    container ∈ h.showable := by
  cases container with
  | list address =>
      have hmade : h.Made (.list address) := by
        -- Nothing is in a container that was not made.
        by_contra hnot
        rw [shownContents, h.list_of_not_made hnot, ResizableArray.holds_empty.toList_eq] at hinner
        nomatch hinner
      simpa [showable, Made] using hmade
  | dict address =>
      have hmade : h.Made (.dict address) := by
        by_contra hnot
        rw [shownContents, h.dict_of_not_made hnot] at hinner
        nomatch hinner
      simpa [showable, Made] using hmade
  | struct address =>
      have hmade : h.Made (.struct address) := by
        by_contra hnot
        rw [shownContents, h.struct_of_not_made hnot] at hinner
        nomatch hinner
      simpa [showable, Made] using hmade
  | module address => nomatch hinner

/-- Entering a container with something in it leaves fewer. -/
theorem left_lt (hnew : container ∉ path) {inner : Value}
    (hinner : inner ∈ h.shownContents container) : h.left (container :: path) < h.left path := by
  have hfewer : h.showable.filter (· ∉ container :: path) =
      (h.showable.filter (· ∉ path)).filter (· ≠ container) := by
    rw [List.filter_filter]
    exact List.filter_congr fun other _ => by simp
  rw [left, left, hfewer, List.length_filter_lt_length_iff_exists]
  exact ⟨container, List.mem_filter.2 ⟨mem_showable hinner, by simpa using hnew⟩, by simp⟩

/-- So one level fewer is enough for them. -/
theorem left_lt_of_lt_succ (hroom : h.left path < levels + 1) (hnew : container ∉ path)
    {inner : Value} (hinner : inner ∈ h.shownContents container) :
    h.left (container :: path) < levels := by
  have hfewer := left_lt hnew hinner
  omega

/-! ## The unfolding exists and is the only one -/

theorem unfolds_renderWithin (hroom : h.left path < levels) :
    h.Unfolds path value (h.renderWithin levels path value) := by
  induction levels generalizing path value with
  | zero => exact absurd hroom (Nat.not_lt_zero _)
  | succ levels ih =>
      -- Inside a container that is new there is one container fewer to enter.
      have hdeeper : ∀ {container inner}, container ∉ path → inner ∈ h.shownContents container →
          h.Unfolds (container :: path) inner (h.renderWithin levels (container :: path) inner) :=
        fun hnew hinner => ih (left_lt_of_lt_succ hroom hnew hinner)
      cases value with
      | list address =>
          simp only [renderWithin, shown?]
          split_ifs with hagain
          · exact .list_again hagain
          · exact .list hagain fun item hitem => hdeeper hagain hitem
      | dict address =>
          simp only [renderWithin, shown?]
          split_ifs with hagain
          · exact .dict_again hagain
          · exact .dict hagain
              (fun entry hentry => hdeeper hagain (key_mem_shownContents hentry))
              fun entry hentry => hdeeper hagain (item_mem_shownContents hentry)
      | struct address =>
          simp only [renderWithin, shown?]
          split_ifs with hagain
          · exact .struct_again hagain
          · exact .struct hagain fun field hfield =>
              hdeeper hagain (field_mem_shownContents hfield)
      | _ => exact .leaf rfl

theorem Unfolds.unique {other : String} (hunfolds : h.Unfolds path value text)
    (hother : h.Unfolds path value other) : other = text := by
  induction hunfolds generalizing other with
  | leaf hleaf => cases hother <;> first | rfl | nomatch hleaf
  | list_again hagain => cases hother <;> first | rfl | contradiction
  | dict_again hagain => cases hother <;> first | rfl | contradiction
  | struct_again hagain => cases hother <;> first | rfl | contradiction
  | list hnew hitems ih =>
      cases hother with
      | leaf hleaf => nomatch hleaf
      | list_again hagain => contradiction
      | list _ hitems' =>
          -- The texts of the parts are the same, so the text that is put together is.
          rw [List.map_congr_left fun item hitem => ih item hitem (hitems' item hitem)]
  | dict hnew hkeys hitems ihkeys ihitems =>
      cases hother with
      | leaf hleaf => nomatch hleaf
      | dict_again hagain => contradiction
      | dict _ hkeys' hitems' =>
          rw [List.map_congr_left fun entry hentry => by
            rw [ihkeys entry hentry (hkeys' entry hentry),
              ihitems entry hentry (hitems' entry hentry)]]
  | struct hnew hfields ih =>
      cases hother with
      | leaf hleaf => nomatch hleaf
      | struct_again hagain => contradiction
      | struct _ hfields' =>
          rw [List.map_congr_left fun field hfield => by
            rw [ih field hfield (hfields' field hfield)]]

/-! ## The list in progress is left as it was -/

/-- A step that leaves the list as it was gives its value to what follows. -/
theorem bind_of_leaves {α β : Type} {first : StateT (List Container) Option α} {x : α}
    (hfirst : first path = some (x, path)) (next : α → StateT (List Container) Option β) :
    (first >>= next) path = next x path := by
  simp [bind, StateT.bind, hfirst]

theorem get_leaves (path : List Container) :
    (get : StateT (List Container) Option (List Container)) path = some (path, path) :=
  rfl

theorem renderOnce_again {placeholder : String}
    {contents : StateT (List Container) Option String} (hagain : container ∈ path) :
    renderOnce container placeholder contents path = some (placeholder, path) := by
  rw [renderOnce, bind_of_leaves (get_leaves path), if_pos hagain]
  rfl

/-- Taking a container off the list undoes putting it there. -/
theorem renderOnce_new {placeholder : String}
    {contents : StateT (List Container) Option String} (hnew : container ∉ path)
    (hcontents : contents (container :: path) = some (text, container :: path)) :
    renderOnce container placeholder contents path = some (text, path) := by
  have hothers : (container :: path).filter (fun other => other ≠ container) = path := by
    rw [List.filter_cons_of_neg (by simp), List.filter_eq_self]
    exact fun other hother => decide_eq_true fun hsame => hnew (hsame ▸ hother)
  rw [renderOnce, bind_of_leaves (get_leaves path), if_neg hnew]
  change (contents (container :: path)).bind
    (fun shown => some (shown.1, shown.2.filter fun other => other ≠ container)) = _
  rw [hcontents, Option.bind_some, hothers]

/-- A row of steps each of which leaves the list as it was leaves it as it was. -/
theorem mapM_of_leaves {α : Type} {step : α → StateT (List Container) Option String}
    {shown : α → String} {l : List α} (hall : ∀ x ∈ l, step x path = some (shown x, path)) :
    l.mapM step path = some (l.map shown, path) := by
  induction l with
  | nil => rfl
  | cons x rest ih =>
      have hrest := ih fun other hother => hall other (List.mem_cons_of_mem _ hother)
      rw [List.mapM_cons, bind_of_leaves (hall x List.mem_cons_self), bind_of_leaves hrest]
      rfl

/-- With levels for the containers that are left, the text is shown and the list is as before. -/
theorem Unfolds.display_eq (hunfolds : h.Unfolds path value text) (hroom : h.left path < levels) :
    h.display levels value path = some (text, path) := by
  induction hunfolds generalizing levels with
  | leaf hleaf =>
      obtain ⟨fewer, rfl⟩ := Nat.exists_eq_add_one.2 (Nat.zero_lt_of_lt hroom)
      rename_i value
      cases value with
      | list | dict | struct => nomatch hleaf
      | _ => rfl
  | list_again hagain | dict_again hagain | struct_again hagain =>
      obtain ⟨fewer, rfl⟩ := Nat.exists_eq_add_one.2 (Nat.zero_lt_of_lt hroom)
      exact renderOnce_again hagain
  | list hnew hitems ih =>
      obtain ⟨fewer, rfl⟩ := Nat.exists_eq_add_one.2 (Nat.zero_lt_of_lt hroom)
      refine renderOnce_new hnew (bind_of_leaves (mapM_of_leaves fun item hitem => ?_) _)
      exact ih item hitem (left_lt_of_lt_succ hroom hnew hitem)
  | @dict path address shown hnew hkeys hitems ihkeys ihitems =>
      obtain ⟨fewer, rfl⟩ := Nat.exists_eq_add_one.2 (Nat.zero_lt_of_lt hroom)
      refine renderOnce_new hnew (bind_of_leaves (mapM_of_leaves fun entry hentry => ?_) _)
      have hdeeper := left_lt_of_lt_succ hroom hnew (key_mem_shownContents hentry)
      rw [bind_of_leaves (ihkeys entry hentry hdeeper),
        bind_of_leaves (ihitems entry hentry hdeeper)]
      rfl
  | @struct path address shown hnew hfields ih =>
      obtain ⟨fewer, rfl⟩ := Nat.exists_eq_add_one.2 (Nat.zero_lt_of_lt hroom)
      refine renderOnce_new hnew (bind_of_leaves (mapM_of_leaves fun field hfield => ?_) _)
      rw [bind_of_leaves (ih field hfield
        (left_lt_of_lt_succ hroom hnew (field_mem_shownContents hfield)))]
      rfl

/-! ## The containers around -/

/-- Two rows of containers around hold the same of those that are reached from a value. -/
def AgreeFor (h : Heap) (path path' : List Container) (value : Value) : Prop :=
  ∀ inner container, ReflTransGen h.ShownIn inner value → shown? inner = some container →
    (container ∈ path ↔ container ∈ path')

theorem AgreeFor.inside {path' : List Container} (hagree : h.AgreeFor path path' value)
    (hshown : shown? value = some container) {inner : Value}
    (hinner : inner ∈ h.shownContents container) :
    h.AgreeFor (container :: path) (container :: path') inner := by
  intro other met hreached hmet
  rw [List.mem_cons, List.mem_cons,
    hagree other met (hreached.tail (.intro hshown hinner)) hmet]

/-- The containers around matter only as far as they are met again. -/
theorem Unfolds.congr_path {path' : List Container} (hunfolds : h.Unfolds path value text)
    (hagree : h.AgreeFor path path' value) : h.Unfolds path' value text := by
  induction hunfolds generalizing path' with
  | leaf hleaf => exact .leaf hleaf
  | list_again hagain => exact .list_again ((hagree _ _ .refl rfl).1 hagain)
  | dict_again hagain => exact .dict_again ((hagree _ _ .refl rfl).1 hagain)
  | struct_again hagain => exact .struct_again ((hagree _ _ .refl rfl).1 hagain)
  | list hnew hitems ih =>
      -- The two ways to the container agree on it, so it is new on both or on neither.
      refine .list (fun hagain => hnew ((hagree _ _ .refl rfl).2 hagain)) fun item hitem => ?_
      exact ih item hitem (hagree.inside rfl hitem)
  | dict hnew hkeys hitems ihkeys ihitems =>
      refine .dict (fun hagain => hnew ((hagree _ _ .refl rfl).2 hagain)) (fun entry hentry => ?_)
        fun entry hentry => ?_
      · exact ihkeys entry hentry (hagree.inside rfl (key_mem_shownContents hentry))
      · exact ihitems entry hentry (hagree.inside rfl (item_mem_shownContents hentry))
  | struct hnew hfields ih =>
      refine .struct (fun hagain => hnew ((hagree _ _ .refl rfl).2 hagain)) fun field hfield => ?_
      exact ih field hfield (hagree.inside rfl (field_mem_shownContents hfield))

theorem eq_of_shown? {other : Value} (hvalue : shown? value = some container)
    (hother : shown? other = some container) : other = value := by
  cases value <;> simp only [shown?, Option.some.injEq, reduceCtorEq] at hvalue
  all_goals
    subst hvalue
    cases other <;> simp_all [shown?]

/-- What is met is within each of the containers around. -/
theorem Met.within {inner : Value} (hmet : h.Met value path inner) (hcontainer : container ∈ path) :
    ∃ outer, shown? outer = some container ∧ TransGen h.ShownIn inner outer := by
  induction hmet with
  | here => nomatch hcontainer
  | inside houter hshown _ hinner ih =>
      rcases List.mem_cons.1 hcontainer with rfl | hcontainer
      · exact ⟨_, hshown, .single (.intro hshown hinner)⟩
      · obtain ⟨further, hfurther, hwithin⟩ := ih hcontainer
        exact ⟨further, hfurther, .head (.intro hshown hinner) hwithin⟩

theorem unfolds_render (h : Heap) (value : Value) : h.Unfolds [] value (h.render value) :=
  unfolds_renderWithin (Nat.lt_succ_of_le (h.left_le_containerCount []))

/-- Something that is not within itself is shown as it is by itself wherever it is met.  If a
container around were met again in it, that would lead back to it. -/
theorem Met.unfolds_render {inner : Value} (hmet : h.Met value path inner)
    (hacyclic : ¬ TransGen h.ShownIn inner inner) : h.Unfolds path inner (h.render inner) := by
  refine (h.unfolds_render inner).congr_path fun other container hreached hother => ?_
  refine ⟨fun hnone => absurd hnone List.not_mem_nil, fun hcontainer => ?_⟩
  obtain ⟨outer, houter, hwithin⟩ := hmet.within hcontainer
  obtain rfl := eq_of_shown? houter hother
  exact absurd (hwithin.trans_left hreached) hacyclic

/-- **What is shown is the unfolding of the value.**  There is one unfolding inside any containers
in progress; rendering ends with it, with levels to spare, and leaves the containers in progress as
they were, so values that are shown one after the other do not disturb each other.  What is not
within itself is shown in full wherever it is met. -/
theorem display_exact (h : Heap) :
    (∀ rendering value, ∃ text, (∀ other, h.Unfolds rendering value other ↔ other = text) ∧
      ∀ levels, h.containerCount < levels →
        h.display levels value rendering = some (text, rendering)) ∧
      (∀ value, h.Unfolds [] value (h.render value)) ∧
      (∀ levels (values : List Value), h.containerCount < levels →
        values.mapM (h.display levels) [] = some (values.map h.render, [])) ∧
      ∀ value path inner, h.Met value path inner → ¬ TransGen h.ShownIn inner inner →
        h.Unfolds path inner (h.render inner) := by
  have hroom : ∀ {levels} rendering, h.containerCount < levels → h.left rendering < levels :=
    fun rendering hlevels => (h.left_le_containerCount rendering).trans_lt hlevels
  refine ⟨fun rendering value => ?_, h.unfolds_render, fun levels values hlevels => ?_,
    fun value path inner hmet hacyclic => hmet.unfolds_render hacyclic⟩
  · have hunfolds : h.Unfolds rendering value
        (h.renderWithin (h.containerCount + 1) rendering value) :=
      unfolds_renderWithin (hroom rendering (Nat.lt_succ_self _))
    refine ⟨_, fun other => ⟨fun hother => hunfolds.unique hother, ?_⟩, fun levels hlevels =>
      hunfolds.display_eq (hroom rendering hlevels)⟩
    rintro rfl
    exact hunfolds
  · exact mapM_of_leaves fun value _ => (h.unfolds_render value).display_eq (hroom [] hlevels)

/-- A list that holds another one twice and itself shows the other one twice, whatever was shown
before; while the other one is in progress, only its placeholder. -/
theorem display_exact_knot :
    ∃ h : Heap, h.list 1 = .ofList [.list 0, .list 0, .list 1] ∧
      [.list 1, .list 0, .list 1].mapM (h.display 100) [] =
        some (["[[1], [1], [...]]", "[1]", "[[1], [1], [...]]"], []) ∧
      h.Unfolds [.list 0] (.list 1) "[[...], [...], [...]]" := by
  let h : Heap := { Heap.empty with
    lists := #[.ofList [.integer 1], .ofList [.list 0, .list 0, .list 1]] }
  have hinner : h.render (.list 0) = "[1]" := rfl
  have houter : h.render (.list 1) = "[[1], [1], [...]]" := rfl
  have hmeanwhile : h.display 100 (.list 1) [.list 0] =
      some ("[[...], [...], [...]]", [.list 0]) := rfl
  have hroom : h.containerCount < 100 := by decide
  obtain ⟨hexact, -, hrow, -⟩ := display_exact h
  obtain ⟨text, hunique, hdisplay⟩ := hexact [.list 0] (.list 1)
  refine ⟨h, rfl, ?_, (hunique _).2 ?_⟩
  · simpa [hinner, houter] using hrow 100 [.list 1, .list 0, .list 1] hroom
  · have hsame := hmeanwhile.symm.trans (hdisplay 100 hroom)
    exact congrArg Prod.fst (Option.some.inj hsame)

end ScriptCore.Heap
