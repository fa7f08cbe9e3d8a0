import ScriptCore.Proofs.Scope.Sound

/-!
# Opening, closing, capturing and collecting

What the life of a record does to a sound arena.  A record is made and linked to the scope that it
extends (`Sound.alloc`, `Sound.appendRecords`); while it is being set up it counts as standing on
top of the stack.  Closing the top scope keeps the arena sound whether or not its record is freed
(`Sound.release`).  Capturing a record captures whatever it links to (`Sound.capture`), and a
collection leaves exactly what is reached (`Sound.collect`).

The step that needs the invariant is closing a scope whose record is freed, for a link to that
record would lead nowhere afterwards.  A link leads to a captured record or down the stack, and the
top of the stack, if it is not captured, is neither (`Sound.ne_top`).
-/

namespace ScriptCore.ScopeArena

variable {usable : Value → Prop} {a : ScopeArena} {stack : List RecordId} {id other : RecordId}
  {record : Record}

/-! ## Making a record -/

@[simp] theorem member?_fresh (name : String) (kind : RecordKind) (bound : String) :
    (Record.fresh name kind).member? bound = none := by
  rw [Record.member?, Record.fresh, NameTable.valid_empty.find?_eq]
  rfl

theorem recordSound_fresh {name : String} {kind : RecordKind} (hid : id ∈ stack) :
    RecordSound usable a stack id (.fresh name kind) where
  held := .inl hid
  valid := NameTable.valid_empty
  usable bound value hbound := by simp at hbound
  owned bound owner hbound := by simp at hbound
  below bound owner hbound := by simp at hbound
  closed _ bound owner hbound := by simp at hbound

/-- A record that was just made counts as the top of the stack. -/
theorem Sound.alloc (ha : a.Sound usable stack) (name : String) (kind : RecordKind) :
    (a.alloc (.fresh name kind)).2.Sound usable (stack ++ [(a.alloc (.fresh name kind)).1]) := by
  have hrecord? := record?_alloc ha.vacancies (.fresh name kind)
  have hdead := record?_alloc_self ha.vacancies (.fresh name kind)
  generalize (a.alloc (.fresh name kind)).1 = new at hrecord? hdead ⊢
  -- The handle is new: its slot was vacant or is one more, so no live record has it.
  have hother : ∀ other held, a.record? other = some held → other ≠ new := by
    rintro other held hheld rfl
    simp [hdead] at hheld
  have howns : ∀ owner name', a.Owns owner name' →
      (a.alloc (.fresh name kind)).2.Owns owner name' := by
    rintro owner name' ⟨held, value, hheld, hbound⟩
    exact ⟨held, value, by simp [hrecord?, hother owner held hheld, hheld], hbound⟩
  have hcaptured : ∀ owner, a.Captured owner → (a.alloc (.fresh name kind)).2.Captured owner := by
    rintro owner ⟨held, hheld, hyes⟩
    exact ⟨held, by simp [hrecord?, hother owner held hheld, hheld], hyes⟩
  exact {
    unmarked := ha.unmarked.alloc _
    vacancies := ha.vacancies.alloc _
    nodup := by
      rw [List.nodup_append]
      refine ⟨ha.nodup, by simp, fun first hfirst second hsecond => ?_⟩
      obtain ⟨held, hheld⟩ := isLive_iff.1 (ha.stack_live first hfirst)
      exact List.mem_singleton.1 hsecond ▸ hother first held hheld
    stack_live := by
      intro first hfirst
      rw [isLive, hrecord?]
      split
      · rfl
      · rename_i hne
        exact ha.stack_live first (by simpa [hne] using hfirst)
    records := by
      intro first held hheld
      rw [hrecord?] at hheld
      split at hheld
      · subst first
        obtain rfl := Option.some.inj hheld
        exact recordSound_fresh (by simp)
      · exact (ha.records first held hheld).mono howns hcaptured (List.sublist_append_left _ _) }

/-! ## Linking a record to the scope that it extends -/

theorem entries_withLinks (scope : Record) (hvalid : scope.members.Valid)
    (links : List (String × RecordId)) (hnodup : (links.map (·.1)).Nodup)
    (hnew : ∀ link ∈ links, link.1 ∉ scope.members.entries.map (·.1)) :
    (withLinks scope links).members.Valid ∧
    (withLinks scope links).members.entries =
      scope.members.entries ++ links.map fun (name, owner) => (name, .link owner) := by
  induction links generalizing scope with
  | nil => exact ⟨hvalid, by simp [withLinks]⟩
  | cons link rest ih =>
    obtain ⟨hset, hentries⟩ := hvalid.set link.1 (.link link.2)
    obtain ⟨hfirst, hrest⟩ := List.nodup_cons.1 hnodup
    -- Names are linked once each, so linking one does not take another out of its place.
    have hkeep : (scope.members.entries.filter fun entry => entry.1 != link.1) =
        scope.members.entries := by
      refine List.filter_eq_self.2 fun entry hentry => ?_
      rw [bne_iff_ne]
      rintro heq
      exact hnew link List.mem_cons_self (List.mem_map.2 ⟨entry, hentry, heq⟩)
    rw [hkeep] at hentries
    obtain ⟨hvalid', hall⟩ := ih (scope.bind link.1 (.link link.2)) hset hrest
      fun later hlater hmem => by
        simp only [Record.bind, hentries, List.map_append, List.map_singleton, List.mem_append,
          List.mem_singleton] at hmem
        rcases hmem with hbefore | heq
        · exact hnew later (List.mem_cons_of_mem _ hlater) hbefore
        · exact hfirst (List.mem_map.2 ⟨later, hlater, heq⟩)
    refine ⟨hvalid', hall.trans ?_⟩
    simp [Record.bind, hentries]

/-- Linking names changes nothing else about a record. -/
theorem withLinks_eq (scope : Record) (links : List (String × RecordId)) :
    withLinks scope links = { scope with members := (withLinks scope links).members } := by
  induction links generalizing scope with
  | nil => rfl
  | cons link rest ih =>
    rw [show withLinks scope (link :: rest) = withLinks (scope.bind link.1 (.link link.2)) rest
      from rfl, ih]
    rfl

/-- A record made for a scope links each name that the scope sees to the owner of the name. -/
theorem entries_linked (name : String) (kind : RecordKind) (hvalid : record.members.Valid)
    (id : RecordId) :
    (withLinks (.fresh name kind) (linksInto id record)).members.Valid ∧
    (withLinks (.fresh name kind) (linksInto id record)).members.entries =
      record.members.entries.map fun (name, binding) =>
        (name, .link (binding.link?.getD id)) := by
  have hlinks := entries_withLinks (.fresh name kind) NameTable.valid_empty (linksInto id record)
    (by simpa [linksInto, Function.comp_def] using hvalid.names_nodup) (by simp [Record.fresh])
  simpa [linksInto, Record.fresh, Function.comp_def] using hlinks

/-- A fresh record on top of the stack may be linked to any other live record. -/
theorem Sound.appendRecords {name : String} {kind : RecordKind}
    (ha : a.Sound usable (stack ++ [id])) (hfresh : a.record? id = some (.fresh name kind))
    (hother : a.record? other = some record) (hne : other ≠ id) :
    a.appendRecords id other =
    (.ok (), a.put id.index (withLinks (.fresh name kind) (linksInto other record))) ∧
    (a.put id.index (withLinks (.fresh name kind) (linksInto other record))).Sound usable
    (stack ++ [id]) := by
  have hsound := ha.records other record hother
  obtain ⟨hvalid, hentries⟩ := entries_linked name kind hsound.valid other
  generalize hnew : withLinks (.fresh name kind) (linksInto other record) = new at hvalid hentries ⊢
  refine ⟨by rw [ScopeArena.appendRecords, get_of_record? hother, ← hnew]; exact
    update_of_record? hfresh _, ?_⟩
  -- All the record binds are links: to the scope for its own names, else to where the scope links.
  have hmember : ∀ bound binding, new.member? bound = some binding →
    ∃ found, record.member? bound = some found ∧ binding = .link (found.link?.getD other) := by
    intro bound binding hbound
    rw [Record.member?, hvalid.find?_eq_some_iff, hentries] at hbound
    obtain ⟨⟨_, found⟩, hfound, heq⟩ := List.mem_map.1 hbound
    obtain ⟨rfl, rfl⟩ := Prod.mk.inj heq
    exact ⟨found, hsound.valid.find?_eq_some_iff.2 hfound, rfl⟩
  have hcaptured : new.captured = false := by
    rw [← hnew, withLinks_eq]
    rfl
  have hlower : other ∈ stack ∨ record.captured = true :=
    hsound.held.imp_left fun hmem => by simpa [hne] using hmem
  refine ha.put hfresh new ?_ (fun bound value hbound => by simp at hbound) (by simp [Record.fresh])
  exact {
    held := .inl (by simp)
    valid := hvalid
    usable := by
      intro bound value hbound
      obtain ⟨_, _, heq⟩ := hmember bound _ hbound
      simp at heq
    owned := by
      intro bound owner hbound
      obtain ⟨found, hfound, heq⟩ := hmember bound _ hbound
      obtain rfl := Binding.link.inj heq
      cases found with
      | value value => exact ⟨record, value, hother, hfound⟩
      | link owner => exact hsound.owned bound owner hfound
    below := by
      intro bound owner hbound
      obtain ⟨found, hfound, heq⟩ := hmember bound _ hbound
      obtain rfl := Binding.link.inj heq
      cases found with
      -- The scope itself is linked.  It is captured, or it stands below on the stack.
      | value value =>
          refine hlower.symm.imp (fun hyes => ⟨record, hother, hyes⟩) fun hmem => ?_
          exact sublist_append_singleton.2 (.inr ⟨hmem, rfl⟩)
      | link owner =>
          refine (hsound.below bound owner hfound).imp_right fun hsub => ?_
          refine sublist_append_singleton.2 (.inr ⟨?_, rfl⟩)
          rcases sublist_append_singleton.1 hsub with hsub | ⟨hmem, -⟩
          · exact hsub.subset List.mem_cons_self
          · exact hmem
    closed := fun hyes => by simp [hcaptured] at hyes }

/-! ## Closing a scope -/

theorem Sound.top_notMem (ha : a.Sound usable (stack ++ [id])) : id ∉ stack := by
  intro hmem
  have hnodup := ha.nodup
  rw [List.nodup_append] at hnodup
  exact hnodup.2.2 id hmem id (by simp) rfl

/-- Nothing but captured records is linked from records below the top. -/
theorem Sound.ne_top (ha : a.Sound usable (stack ++ [id])) (htop : a.record? id = some record)
    (huncaptured : record.captured = false) {held : Record} {name : String} {owner : RecordId}
    (hother : a.record? other = some held) (hlink : held.member? name = some (.link owner)) :
    owner ≠ id := by
  rintro rfl
  -- A link to the top would lead to a captured record or down the stack, and it does neither.
  rcases (ha.records other held hother).below name owner hlink with ⟨top, hrecord, hyes⟩ | hsub
  · obtain rfl : record = top := Option.some.inj (htop.symm.trans hrecord)
    simp [huncaptured] at hyes
  · rcases sublist_append_singleton.1 hsub with hsub | ⟨hmem, -⟩
    · exact ha.top_notMem (hsub.subset List.mem_cons_self)
    · exact ha.top_notMem hmem

/-- A captured record stays when its scope is closed. -/
theorem Sound.close_captured (ha : a.Sound usable (stack ++ [id]))
    (hcaptured : a.Captured id) : a.Sound usable stack where
  unmarked := ha.unmarked
  vacancies := ha.vacancies
  nodup := ha.nodup.sublist (List.sublist_append_left _ _)
  stack_live other hother := ha.stack_live other (List.mem_append_left _ hother)
  records other held hheld := by
    have hsound := ha.records other held hheld
    -- The record is not open any more, but it is captured, and so is all that it links to.
    have hyes : other = id → held.captured = true := by
      rintro rfl
      obtain ⟨top, htop, hyes⟩ := hcaptured
      exact Option.some.inj (htop.symm.trans hheld) ▸ hyes
    exact {
      held := hsound.held.elim (fun hmem => by
        rcases List.mem_append.1 hmem with hlower | htop
        · exact .inl hlower
        · exact .inr (hyes (List.mem_singleton.1 htop))) .inr
      valid := hsound.valid
      usable := hsound.usable
      owned := hsound.owned
      below := by
        intro name owner hlink
        rcases hsound.below name owner hlink with hcap | hsub
        · exact .inl hcap
        · rcases sublist_append_singleton.1 hsub with hsub | ⟨-, htop⟩
          · exact .inr hsub
          · exact .inl (hsound.closed (hyes htop) name owner hlink)
      closed := hsound.closed }

/-- A record that nobody captured goes when its scope is closed. -/
theorem Sound.close_uncaptured (ha : a.Sound usable (stack ++ [id]))
    (htop : a.record? id = some record) (huncaptured : record.captured = false) :
    (a.free id.index).Sound usable stack := by
  have hrecord? := record?_free htop
  have hlive : ∀ other held, (a.free id.index).record? other = some held →
      other ≠ id ∧ a.record? other = some held := by
    intro other held hheld
    rw [hrecord?] at hheld
    split at hheld
    · simp at hheld
    · exact ⟨‹_›, hheld⟩
  have howns : ∀ owner name, owner ≠ id → a.Owns owner name →
      (a.free id.index).Owns owner name := by
    rintro owner name hne ⟨held, value, hheld, hbound⟩
    exact ⟨held, value, by simp [hrecord?, hne, hheld], hbound⟩
  have hcaptured : ∀ owner, owner ≠ id → a.Captured owner → (a.free id.index).Captured owner := by
    rintro owner hne ⟨held, hheld, hyes⟩
    exact ⟨held, by simp [hrecord?, hne, hheld], hyes⟩
  -- No link leads to the record that goes, so every owner and every captured record stays.
  exact {
    unmarked := ha.unmarked.free _
    vacancies := ha.vacancies.free htop
    nodup := ha.nodup.sublist (List.sublist_append_left _ _)
    stack_live := by
      intro other hother
      have hne : other ≠ id := by
        rintro rfl
        exact ha.top_notMem hother
      rw [isLive, hrecord?, if_neg hne]
      exact ha.stack_live other (List.mem_append_left _ hother)
    records := by
      intro other held hheld
      obtain ⟨hne, hbefore⟩ := hlive other held hheld
      have hsound := ha.records other held hbefore
      exact {
        held := hsound.held.imp_left fun hmem => by simpa [hne] using hmem
        valid := hsound.valid
        usable := hsound.usable
        owned := fun name owner hlink =>
          howns owner name (ha.ne_top htop huncaptured hbefore hlink)
            (hsound.owned name owner hlink)
        below := by
          intro name owner hlink
          refine (hsound.below name owner hlink).imp
            (hcaptured owner (ha.ne_top htop huncaptured hbefore hlink)) fun hsub => ?_
          exact (sublist_append_singleton.1 hsub).resolve_right fun hlast => hne hlast.2
        closed := fun hyes name owner hlink =>
          hcaptured owner (ha.ne_top htop huncaptured hbefore hlink)
            (hsound.closed hyes name owner hlink) } }

/-- Closing the top scope keeps the arena sound.  The record goes unless it is captured; all others
stay as they are. -/
theorem Sound.release (ha : a.Sound usable (stack ++ [id])) (htop : a.record? id = some record) :
    (a.release id).1 = .ok (!record.captured) ∧ (a.release id).2.Sound usable stack ∧
      ∀ other, (a.release id).2.record? other =
        if other = id ∧ record.captured = false then none else a.record? other := by
  rw [release_of_record? htop]
  by_cases hyes : record.captured = true
  · rw [if_pos hyes]
    exact ⟨by simp [hyes], ha.close_captured ⟨record, htop, hyes⟩, fun _ => by simp [hyes]⟩
  · rw [if_neg hyes]
    rw [Bool.not_eq_true] at hyes
    exact ⟨by simp [hyes], ha.close_uncaptured htop hyes, fun other => by
      simp [record?_free htop, hyes]⟩

/-! ## Capturing -/

theorem mem_links_iff (hvalid : record.members.Valid) {owner : RecordId} :
    owner ∈ record.links ↔ ∃ name, record.member? name = some (.link owner) := by
  rw [Record.links, List.mem_filterMap]
  constructor
  · rintro ⟨binding, hbinding, howner⟩
    obtain ⟨name, hbound⟩ := hvalid.mem_values_iff.1 hbinding
    cases binding with
    | value value => simp [Binding.link?] at howner
    | link found =>
        obtain rfl := Option.some.inj howner
        exact ⟨name, hbound⟩
  · rintro ⟨name, hbound⟩
    exact ⟨.link owner, hvalid.mem_values_iff.2 ⟨name, hbound⟩, rfl⟩

/-- In a sound arena links lead to live records only. -/
theorem Sound.isLive_of_linkReached (ha : a.Sound usable stack) (hlive : a.isLive id = true)
    (hreached : LinkReached a id other) : a.isLive other = true := by
  cases hreached with
  | self => exact hlive
  | link _ hrecord hlink =>
      have hsound := ha.records _ _ hrecord
      obtain ⟨name, hbound⟩ := (mem_links_iff hsound.valid).1 hlink
      exact (hsound.owned name _ hbound).isLive

theorem persists_capture (hlive : ∀ other, LinkReached a id other → a.isLive other = true)
    (other : RecordId) : a.Persists (a.capture id).2 other := by
  intro held hheld
  rw [record?_capture hlive]
  split
  · exact ⟨held.pinned, by simp [hheld], rfl, rfl, rfl, rfl, fun _ => rfl⟩
  · exact ⟨held, hheld, rfl, rfl, rfl, rfl, fun hyes => hyes⟩

/-- Capturing a record keeps the arena sound and leaves the record captured. -/
theorem Sound.capture (ha : a.Sound usable stack) (hlive : a.isLive id = true) :
    (a.capture id).1 = .ok () ∧ (a.capture id).2.Sound usable stack ∧
      (a.capture id).2.Captured id ∧ ∀ other, a.Persists (a.capture id).2 other := by
  have hall : ∀ other, LinkReached a id other → a.isLive other = true := fun other =>
    ha.isLive_of_linkReached hlive
  have hrecord? := record?_capture hall
  have hpersists := persists_capture hall
  have hpinned : ∀ other, LinkReached a id other → (a.capture id).2.Captured other := by
    intro other hreached
    obtain ⟨held, hheld⟩ := isLive_iff.1 (hall other hreached)
    exact ⟨held.pinned, by simp [hrecord?, hreached, hheld], rfl⟩
  have howns : ∀ owner name, a.Owns owner name → (a.capture id).2.Owns owner name := by
    rintro owner name ⟨held, value, hheld, hbound⟩
    rw [Owns, hrecord?]
    split
    · exact ⟨held.pinned, value, by simp [hheld], hbound⟩
    · exact ⟨held, value, hheld, hbound⟩
  refine ⟨capture_ok hall, ?_, hpinned id .self, hpersists⟩
  exact {
    unmarked := ha.unmarked.capture id
    vacancies := ha.vacancies.capture id
    nodup := ha.nodup
    stack_live := fun other hother => (hpersists other).isLive (ha.stack_live other hother)
    records := by
      intro other held hheld
      rw [hrecord?] at hheld
      split at hheld
      · rename_i hreached
        obtain ⟨before, hbefore, rfl⟩ := Option.map_eq_some_iff.1 hheld
        have hsound := (ha.records other before hbefore).mono howns
          (fun owner => (hpersists owner).captured) (List.Sublist.refl _)
        -- What a reached record links to is reached, so it is captured now.
        have hlinks : ∀ name owner, before.member? name = some (.link owner) →
            (a.capture id).2.Captured owner := fun name owner hlink =>
          hpinned owner (.link hreached hbefore ((mem_links_iff hsound.valid).2 ⟨name, hlink⟩))
        exact {
          held := .inr rfl
          valid := hsound.valid
          usable := hsound.usable
          owned := hsound.owned
          below := fun name owner hlink => .inl (hlinks name owner hlink)
          closed := fun _ => hlinks }
      · exact (ha.records other held hheld).mono howns (fun owner => (hpersists owner).captured)
          (List.Sublist.refl _) }

/-! ## Collecting -/

variable {h : Heap} {roots : List Value}

theorem record?_collect_of_not_reached (ha : a.Unmarked)
    (hnot : ¬ Reached a h stack roots (.record id)) :
    (a.collect h stack roots).2.record? id = none := by
  have hdead : (a.collect h stack roots).2.isLive id ≠ true := fun hlive =>
    hnot ((isLive_collect_iff ha h stack roots id).1 hlive).2
  simpa [isLive] using hdead

theorem vacancies_sweep {slots : Array Slot} (ha : a.Vacancies)
    (hsame : Collector.SameRecords a slots) :
    (Collector.sweep { a with slots }).2.Vacancies := by
  have hvacant : ∀ index ∈ a.vacant, ∃ slot, slots[index]? = some slot ∧ slot.record = none := by
    intro index hindex
    obtain ⟨before, hbefore, hnone⟩ := ha.vacant index hindex
    have hcontent := hsame index
    rw [hbefore, Option.map_some, Option.map_eq_some_iff] at hcontent
    obtain ⟨slot, hslot, heq⟩ := hcontent
    exact ⟨slot, hslot, (Prod.mk.inj heq).2.trans hnone⟩
  have hunreached : ∀ index ∈ Collector.unreached slots,
      ∃ slot, slots[index]? = some slot ∧ Collector.isUnmarked slot = true := by
    intro index hindex
    obtain ⟨hrange, hunmarked⟩ := List.mem_filter.1 hindex
    have hlt : index < slots.size := List.mem_range.1 hrange
    have hslot : slots[index]? = some slots[index] := Array.getElem?_eq_getElem hlt
    exact ⟨_, hslot, by simpa [Array.getD_eq_getD_getElem?, hslot] using hunmarked⟩
  refine ⟨?_, fun index hindex => ?_⟩
  · refine List.nodup_append.2 ⟨List.nodup_reverse.2 (List.nodup_range.filter _), ha.nodup, ?_⟩
    -- A slot is freed only if it holds a record, so it was not vacant before.
    rintro first hfirst second hsecond rfl
    obtain ⟨slot, hslot, hunmarked⟩ := hunreached first (List.mem_reverse.1 hfirst)
    obtain ⟨slot', hslot', hnone⟩ := hvacant first hsecond
    obtain rfl : slot = slot' := Option.some.inj (hslot.symm.trans hslot')
    simp [Collector.isUnmarked, hnone] at hunmarked
  · simp only [Collector.sweep, Array.getElem?_map]
    rcases List.mem_append.1 hindex with hfreed | hbefore
    · obtain ⟨slot, hslot, hunmarked⟩ := hunreached index (List.mem_reverse.1 hfreed)
      exact ⟨vacated slot, by simp [hslot, Collector.sweepSlot, hunmarked], rfl⟩
    · obtain ⟨slot, hslot, hnone⟩ := hvacant index hbefore
      exact ⟨{ slot with marked := false }, by
        simp [hslot, Collector.sweepSlot, Collector.isUnmarked, hnone], hnone⟩

theorem vacancies_collect (ha : a.Vacancies) (hunmarked : a.Unmarked) :
    (a.collect h stack roots).2.Vacancies := by
  obtain ⟨unvisited, hmarking⟩ :=
    Collector.marking_mark (Collector.marking_start hunmarked h stack roots)
  exact vacancies_sweep ha hmarking.same

/-- A collection keeps the arena sound; the values that are bound afterwards were reached. -/
theorem Sound.collect (ha : a.Sound usable stack) {usable' : Value → Prop}
    (husable : ∀ value, Reached a h stack roots (.value value) → usable' value) :
    (a.collect h stack roots).2.Sound usable' stack := by
  have hkept : ∀ id, Reached a h stack roots (.record id) →
      (a.collect h stack roots).2.record? id = a.record? id :=
    fun id => record?_collect_of_reached ha.unmarked
  have hlive : ∀ id held, (a.collect h stack roots).2.record? id = some held →
      Reached a h stack roots (.record id) ∧ a.record? id = some held := by
    intro id held hheld
    by_cases hreached : Reached a h stack roots (.record id)
    · exact ⟨hreached, (hkept id hreached).symm.trans hheld⟩
    · simp [record?_collect_of_not_reached ha.unmarked hreached] at hheld
  exact {
    unmarked := unmarked_sweep _
    vacancies := vacancies_collect ha.vacancies ha.unmarked
    nodup := ha.nodup
    stack_live := by
      intro id hid
      rw [isLive, hkept id (.scope hid)]
      exact ha.stack_live id hid
    records := by
      intro id held hheld
      obtain ⟨hreached, hbefore⟩ := hlive id held hheld
      have hsound := ha.records id held hbefore
      have howner : ∀ name owner, held.member? name = some (.link owner) →
          Reached a h stack roots (.record owner) := fun name owner hlink =>
        hreached.step (.link hbefore (hsound.valid.mem_values_iff.2 ⟨name, hlink⟩))
      -- A link of a record that is kept leads to one that is kept, unchanged.
      have hcaptured : ∀ name owner, held.member? name = some (.link owner) → a.Captured owner →
          (a.collect h stack roots).2.Captured owner := by
        rintro name owner hlink ⟨other, hother, hyes⟩
        exact ⟨other, by rw [hkept owner (howner name owner hlink), hother], hyes⟩
      exact {
        held := hsound.held
        valid := hsound.valid
        usable := fun name value hbound => husable value
          (hreached.step (.member hbefore (hsound.valid.mem_values_iff.2 ⟨name, hbound⟩)))
        owned := by
          intro name owner hlink
          obtain ⟨other, value, hother, hvalue⟩ := hsound.owned name owner hlink
          exact ⟨other, value, by rw [hkept owner (howner name owner hlink), hother], hvalue⟩
        below := fun name owner hlink =>
          (hsound.below name owner hlink).imp_left (hcaptured name owner hlink)
        closed := fun hyes name owner hlink =>
          hcaptured name owner hlink (hsound.closed hyes name owner hlink) } }

end ScriptCore.ScopeArena
