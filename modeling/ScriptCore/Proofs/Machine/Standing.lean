import ScriptCore.Proofs.Evaluation.Conserved
import ScriptCore.Proofs.Machine.Upright

/-!
# Scopes that stand while an evaluation goes on

An evaluation closes the scopes that it has opened and, with a routine of the host, any others but
that of the program.  `Machine.Standing floor allowed m` says that the open scopes from a height up
are live, each of them open once, and that the routines of the host that the heap may have are of
some kind.

Every step of an evaluation conserves this (`conservesSteps_stands`), and so does every routine that
closes no scope by itself (`HostRoutine.staysAbove_of_asks`).  So the scope on top is live
throughout.  If all open scopes count, a routine cannot close too many, since the lowest one is
never closed; then every routine will do (`HostRoutine.staysAbove_zero`).

An upright machine stands from the bottom, and any tidy machine with a live scope on top stands from
that scope up if no routine closes scopes.  Of the routines on offer there is but one that does
(`anchored_of_offered`).
-/

namespace ScriptCore

/-- The handle is found where it stands, or further up. -/
theorem CallStack.exists_positionBelow {s : CallStack} {id : RecordId} {place height : Nat}
    (hplace : s.records[place]? = some id) (hlt : place < height) :
    ∃ position, s.positionBelow id height = some position ∧ place ≤ position := by
  induction height with
  | zero => omega
  | succ height ih =>
      rw [CallStack.positionBelow]
      split
      · exact ⟨height, rfl, Nat.le_of_lt_succ hlt⟩
      · rename_i hne
        rcases Nat.lt_succ_iff_lt_or_eq.1 hlt with hbelow | rfl
        · exact ih hbelow
        · exact absurd hplace hne

namespace Machine

/-- The scopes from a height up are live and each open once, and the routines of the host that the
heap may have are of some kind. -/
structure Standing (floor : Nat) (allowed : HostRoutine → Prop) (m : Machine) : Prop where
  tidy : m.arena.Tidy
  above : floor < m.stack.depth
  nodup : (m.stack.records.toList.drop floor).Nodup
  live : ∀ id ∈ m.stack.records.toList.drop floor, m.arena.isLive id = true
  permits : m.heap.Permits allowed

variable {floor : Nat} {allowed : HostRoutine → Prop} {m m' : Machine} {id : RecordId}
  {record : Record}

/-! ## The scope on top -/

theorem Standing.exists_top (hm : m.Standing floor allowed) :
    ∃ (records : Array RecordId) (id : RecordId), m.stack.records = records.push id ∧
      m.stack.records.toList.drop floor = records.toList.drop floor ++ [id] := by
  have hpos : 0 < m.stack.records.size := Nat.zero_lt_of_lt hm.above
  obtain ⟨records, id, hstack⟩ := Array.exists_push_of_size_pos hpos
  have habove := hm.above
  rw [CallStack.depth, hstack, Array.size_push] at habove
  refine ⟨records, id, hstack, ?_⟩
  rw [hstack, Array.toList_push, List.drop_append_of_le_length]
  rw [Array.length_toList]
  omega

/-- The name of the scope on top can be read. -/
theorem Standing.currentName_eq (hm : m.Standing floor allowed) :
    ∃ name, m.currentName = .ok name := by
  obtain ⟨records, id, hstack, hdrop⟩ := hm.exists_top
  have hcurrent : m.currentRecord = id := by
    simp [currentRecord, CallStack.top?, hstack]
  obtain ⟨record, hrecord⟩ := ScopeArena.isLive_iff.1 (hm.live id (by simp [hdrop]))
  exact ⟨record.name, by rw [currentName, hcurrent, ScopeArena.get_of_record? hrecord]; rfl⟩

/-! ## Steps that keep the stack -/

theorem Standing.withHeap (hm : m.Standing floor allowed) {heap : Heap}
    (hheap : heap.Permits allowed) : Standing floor allowed { m with heap } :=
  { hm with permits := hheap }

theorem Standing.withArena (hm : m.Standing floor allowed) {arena : ScopeArena}
    (harena : m.arena.Renews arena) : Standing floor allowed { m with arena } where
  tidy := harena.tidy
  above := hm.above
  nodup := hm.nodup
  live id hid := by
    obtain ⟨record, hrecord⟩ := ScopeArena.isLive_iff.1 (hm.live id hid)
    obtain ⟨later, hlater, -⟩ := harena.persists id record hrecord
    exact ScopeArena.isLive_of_record? hlater
  permits := hm.permits

theorem Standing.collect (hm : m.Standing floor allowed) (roots : List Value) :
    (Machine.collect roots m).2.Standing floor allowed where
  tidy := ⟨ScopeArena.vacancies_collect hm.tidy.vacancies hm.tidy.unmarked,
    ScopeArena.unmarked_sweep _⟩
  above := hm.above
  nodup := hm.nodup
  live id hid := by
    have hopen : id ∈ m.stack.records.toList := List.mem_of_mem_drop hid
    rw [collect_on, ScopeArena.isLive,
      ScopeArena.record?_collect_of_reached hm.tidy.unmarked (.scope hopen)]
    exact hm.live id hid
  permits := hm.permits

/-! ## Opening and closing scopes -/

theorem Standing.of_opens {opened : Machine} (hm : m.Standing floor allowed)
    (hopens : m.Opens id record opened) (htidy : opened.arena.Tidy) :
    opened.Standing floor allowed := by
  have hdrop : opened.stack.records.toList.drop floor =
      m.stack.records.toList.drop floor ++ [id] := by
    rw [hopens.stack, Array.toList_push, List.drop_append_of_le_length]
    exact Nat.le_of_lt hm.above
  exact {
    tidy := htidy
    above := by
      rw [hopens.stack, CallStack.depth, Array.size_push]
      exact Nat.lt_succ_of_lt hm.above
    nodup := by
      rw [hdrop, List.nodup_append]
      refine ⟨hm.nodup, List.nodup_singleton id, fun other hother new hnew => ?_⟩
      -- The new record was not live before, and the open ones were.
      obtain ⟨held, hheld⟩ := ScopeArena.isLive_iff.1 (hm.live other hother)
      rw [List.mem_singleton.1 hnew]
      exact hopens.ne_of_record? hheld
    live := by
      intro other hother
      rw [hdrop, List.mem_append, List.mem_singleton] at hother
      rcases hother with hbefore | rfl
      · obtain ⟨held, hheld⟩ := ScopeArena.isLive_iff.1 (hm.live other hbefore)
        exact ScopeArena.isLive_of_record? (hopens.record?_of_record? hheld)
      · exact ScopeArena.isLive_of_record? (by rw [hopens.arena, if_pos rfl])
    permits := by
      rw [hopens.heap]
      exact hm.permits }

/-- A scope above the height can be closed. -/
theorem Standing.closeTop (hm : m.Standing floor allowed) (hdepth : floor + 1 < m.stack.depth) :
    ∃ id closed, Machine.closeTop m = (.ok (), closed) ∧ closed.Standing floor allowed ∧
      m.stack.records.toList = closed.stack.records.toList ++ [id] := by
  obtain ⟨records, id, hstack, hdrop⟩ := hm.exists_top
  obtain ⟨record, hrecord⟩ := ScopeArena.isLive_iff.1 (hm.live id (by simp [hdrop]))
  obtain ⟨closed, hclose, hcloses, htidy⟩ := closeTop_of_record? hm.tidy hstack hrecord
  obtain ⟨rfl, -⟩ := hcloses.records_eq hstack
  have hnodup := hm.nodup
  rw [hdrop, List.nodup_append] at hnodup
  refine ⟨id, closed, hclose, ?_, by rw [hstack, Array.toList_push]⟩
  exact {
    tidy := htidy
    above := by
      rw [CallStack.depth, hstack, Array.size_push] at hdepth
      exact Nat.lt_of_succ_lt_succ hdepth
    nodup := hnodup.1
    live := by
      intro other hother
      have hne : other ≠ id := hnodup.2.2 other hother id List.mem_cons_self
      rw [ScopeArena.isLive, hcloses.arena, if_neg fun hsame => hne hsame.1]
      exact hm.live other (by rw [hdrop]; exact List.mem_append_left _ hother)
    permits := by
      rw [hcloses.heap]
      exact hm.permits }

theorem Standing.closeScopes (hm : m.Standing floor allowed) (count : Nat)
    (hcount : floor + count < m.stack.depth) :
    ∃ closed, Machine.closeScopes count m = (.ok (), closed) ∧ closed.Standing floor allowed ∧
      closed.stack.records.toList = m.stack.records.toList.take (m.stack.depth - count) := by
  induction count generalizing m with
  | zero =>
      refine ⟨m, rfl, hm, (List.take_of_length_le ?_).symm⟩
      rw [Array.length_toList, CallStack.depth, Nat.sub_zero]
  | succ count ih =>
      -- One scope fewer is left to close, and it is still above the height.
      obtain ⟨id, next, hclose, hnext, hlist⟩ := hm.closeTop (by omega)
      have hdepth : m.stack.depth = next.stack.depth + 1 := by
        simpa [CallStack.depth] using congrArg List.length hlist
      obtain ⟨closed, hrest, hclosed, hrecords⟩ := ih hnext (by omega)
      refine ⟨closed, ?_, hclosed, ?_⟩
      · simp only [Machine.closeScopes, Attempt.bind_on, hclose, hrest]
      · rw [hrecords, hlist, List.take_append_of_le_length] <;>
          simp only [Array.length_toList, CallStack.depth] at hdepth ⊢
        · congr 1
          omega
        · omega

/-- Closing down to a depth above the height takes away what is open beyond it. -/
theorem Standing.unwindTo (hm : m.Standing floor allowed) {depth : Nat}
    (hdepth : floor < max depth 1) :
    (Machine.unwindTo depth m).2.Standing floor allowed ∧
      (Machine.unwindTo depth m).2.stack.records.toList =
        m.stack.records.toList.take (max depth 1) := by
  have habove := hm.above
  obtain ⟨closed, hclose, hclosed, hrecords⟩ :=
    hm.closeScopes (m.stack.depth - max depth 1) (by omega)
  rw [unwindTo_on, hclose]
  refine ⟨hclosed, ?_⟩
  rcases Nat.le_total m.stack.depth (max depth 1) with hle | hge
  · rw [hrecords, Nat.sub_eq_zero_of_le hle, Nat.sub_zero, List.take_of_length_le,
      List.take_of_length_le]
    · rwa [Array.length_toList]
    · rw [Array.length_toList, CallStack.depth]
  · rw [hrecords, Nat.sub_sub_self hge]

/-! ## Evaluations -/

/-- The scopes stand, and unless all of them count those that were open at the start still are. -/
structure Stands (floor : Nat) (allowed : HostRoutine → Prop) (start m : Machine) : Prop
    extends Standing floor allowed m where
  kept : floor = 0 ∨ start.stack.records.toList <+: m.stack.records.toList

theorem Standing.stands (hm : m.Standing floor allowed) : Stands floor allowed m m :=
  ⟨hm, .inr (List.prefix_refl _)⟩

variable {start worked : Machine}

/-- Closing down to a depth at which all scopes of the start are open. -/
theorem Stands.unwindTo (hm : Stands floor allowed start m)
    (hworked : Stands floor allowed start worked) {depth : Nat}
    (hdepth : floor = 0 ∨ m.stack.depth ≤ depth) :
    Stands floor allowed start (Machine.unwindTo depth worked).2 := by
  have habove := hm.above
  have hhigh : floor < max depth 1 := by omega
  obtain ⟨hstanding, hrecords⟩ := hworked.toStanding.unwindTo hhigh
  refine ⟨hstanding, ?_⟩
  rcases hdepth with hfloor | hdepth
  · exact .inl hfloor
  rcases hm.kept with hfloor | hprefix
  · exact .inl hfloor
  refine hworked.kept.imp_right fun hkept => ?_
  have hlength := hprefix.length_le
  simp only [Array.length_toList] at hlength
  rw [hrecords, List.prefix_take_iff, Array.length_toList]
  exact ⟨hkept, hlength.trans (hdepth.trans (Nat.le_max_left _ _))⟩

/-- After work in a scope that was opened, the scopes of the start stand still. -/
theorem Stands.outer {opened : Machine} (hm : Stands floor allowed start m)
    (hopens : m.Opens id record opened) (hworked : Stands floor allowed opened worked) :
    Stands floor allowed start worked := by
  refine ⟨hworked.toStanding, ?_⟩
  rcases hm.kept with hfloor | hprefix
  · exact .inl hfloor
  refine hworked.kept.imp_right fun hkept => hprefix.trans (.trans ?_ hkept)
  rw [hopens.stack, Array.toList_push]
  exact List.prefix_append _ _

/-- If all open scopes count, closing one by its handle leaves those below it standing. -/
theorem Stands.popRecord_of_zero (hm : Stands 0 allowed start m) (id : RecordId) :
    Stands 0 allowed start (Machine.popRecord id m).2 := by
  cases hposition : m.stack.positionOf? id with
  | some position =>
      rw [popRecord_of_positionOf? hposition]
      exact hm.unwindTo hm (.inl rfl)
  | none =>
      rw [popRecord_of_positionOf?_eq_none hposition]
      exact hm

/-- The scope that was opened, and all above it, are closed by its handle. -/
theorem Stands.popRecord {opened : Machine} (hm : Stands floor allowed start m)
    (hopens : m.Opens id record opened) (hworked : Stands floor allowed opened worked) :
    Stands floor allowed start (Machine.popRecord id worked).2 := by
  have houter := hm.outer hopens hworked
  rcases hworked.kept with rfl | hkept
  · exact houter.popRecord_of_zero id
  -- The scope is still where it was opened, so its handle is found there or further up.
  · obtain ⟨above, habove⟩ := hkept
    rw [hopens.stack, Array.toList_push, List.append_assoc] at habove
    have hplace : worked.stack.records[m.stack.depth]? = some id := by
      rw [← Array.getElem?_toList, ← habove, CallStack.depth, ← Array.length_toList]
      simp
    obtain ⟨hlt, -⟩ := Array.getElem?_eq_some_iff.1 hplace
    obtain ⟨position, hposition, hle⟩ := CallStack.exists_positionBelow hplace hlt
    rw [← CallStack.depth, ← CallStack.positionOf?] at hposition
    rw [popRecord_of_positionOf? hposition]
    exact hm.unwindTo houter (.inr hle)

theorem Stands.collect (hm : Stands floor allowed start m) (roots : List Value) :
    Stands floor allowed start (Machine.collect roots m).2 :=
  ⟨hm.toStanding.collect roots, hm.kept⟩

theorem Stands.pushRecord (hm : Stands floor allowed start m) (name : String) (kind : RecordKind) :
    Stands floor allowed start (Machine.pushRecord name kind m).2 := by
  rw [pushRecord_eq]
  rcases hopen : Machine.openRecord (.fresh name kind) (setUpCall m.currentRecord []) m with
    ⟨err | id, opened⟩
  · obtain ⟨arena, rfl, harena⟩ := renews_of_openRecord hm.tidy hopen
    exact ⟨hm.withArena harena, hm.kept⟩
  · obtain ⟨record, hopens, htidy⟩ := opens_of_openRecord hm.tidy hopen
    exact hm.outer hopens (hm.of_opens hopens htidy).stands

/-- The steps of an evaluation keep the scopes standing. -/
theorem conservesSteps_stands (floor : Nat) (allowed : HostRoutine → Prop) :
    ConservesSteps allowed (Stands floor allowed) where
  permits hm := hm.permits
  heap hm hheap := ⟨hm.withHeap hheap, hm.kept⟩
  assign name value hm := ⟨hm.withArena (hm.tidy.renews_assign _ name value), hm.kept⟩
  define name value hm := ⟨hm.withArena (hm.tidy.renews_define _ name value), hm.kept⟩
  captures hm := ⟨hm.withArena (hm.tidy.renews_capture _), hm.kept⟩
  fails hm hfail := by
    obtain ⟨arena, rfl, harena⟩ := renews_of_openRecord hm.tidy hfail
    exact ⟨hm.withArena harena, hm.kept⟩
  opens hm hopen := by
    obtain ⟨record, hopens, htidy⟩ := opens_of_openRecord hm.tidy hopen
    exact (hm.of_opens hopens htidy).stands
  closes hm hopen hworked := by
    obtain ⟨record, hopens, -⟩ := opens_of_openRecord hm.tidy hopen
    exact ⟨hm.unwindTo (hm.outer hopens hworked) (.inr (Nat.le_refl _)),
      hm.popRecord hopens hworked⟩
  rewinds hm hm' := hm.unwindTo hm' (.inr (Nat.le_refl _))

end Machine

/-! ## Routines of the host -/

open Machine

/-- A routine keeps the scopes from a height up standing as far as what it has evaluated does. -/
def HostRoutine.StaysAbove (floor : Nat) (routine : HostRoutine) : Prop :=
  ∀ allowed, routine.Respects (Stands floor allowed)

namespace HostRoutine

variable {routine : HostRoutine}

/-- A routine that closes no scope by itself leaves them standing, from whatever height. -/
theorem staysAbove_of_asks (hroutine : routine.Asks (·.effect ≠ .closes)) (floor : Nat) :
    routine.StaysAbove floor := by
  refine fun allowed => respects_of_asks hroutine fun request heffect evaluator heval m₀ m hm => ?_
  cases request with
  | pushRecord name kind => exact Run.maintains_lift (hm.pushRecord name kind)
  | collect roots => exact Run.maintains_lift (hm.collect roots)
  | popRecord id => exact absurd rfl heffect
  | unwindTo depth => exact absurd rfl heffect
  | _ =>
      exact (conservesSteps_stands floor allowed).maintains_perform heval
        (by simp [HostRequest.effect]) hm

/-- Of the routines on offer only one closes scopes. -/
theorem staysAbove_of_offered {name : String} (hoffered : (name, routine) ∈ offered)
    (hname : name ≠ "unwind") (floor : Nat) : routine.StaysAbove floor := by
  refine staysAbove_of_asks ((asks_of_offered hoffered).mono fun _ heffect hcloses => ?_) floor
  rw [hcloses] at heffect
  unfold effectsOf at heffect
  split at heffect <;> simp_all

end HostRoutine

namespace Machine

variable {floor : Nat} {m : Machine}

theorem conserves_stands (floor : Nat) :
    Conserves (HostRoutine.StaysAbove floor) (Stands floor (HostRoutine.StaysAbove floor)) where
  toConservesSteps := conservesSteps_stands floor _
  host hstays := hstays _

/-- The scopes stand from a height up, and every routine of the host that the heap has leaves them
standing. -/
abbrev Steady (floor : Nat) (m : Machine) : Prop :=
  m.Standing floor (HostRoutine.StaysAbove floor)

/-! ## Machines whose scope on top stays live -/

/-- The scope on top is live, and no evaluation brings up a dead one: the routines of the host leave
open what they find open, as far as what they have evaluated does, or all open scopes are live and
none is open twice.

Every machine that a host can come to by the operations of the machine is anchored
(`Upright.anchored`).  A host that frees an open scope below the top in the arena itself, behind the
machine's back, leaves it anchored too, unless it has also bound a routine that closes scopes. -/
structure Anchored (m : Machine) : Prop where
  tidy : m.arena.Tidy
  top : ∃ id, m.stack.top? = some id ∧ m.arena.isLive id = true
  steady : (m.heap.Permits fun routine => ∀ floor, routine.StaysAbove floor) ∨
    m.stack.records.toList.Nodup ∧ ∀ id ∈ m.stack.records.toList, m.arena.isLive id = true

/-- With the routines on offer that close no scope, a live scope on top is enough. -/
theorem anchored_of_offered (htidy : m.arena.Tidy)
    (htop : ∃ id, m.stack.top? = some id ∧ m.arena.isLive id = true)
    (hheap : m.heap.Permits fun routine =>
      ∃ name, (name, routine) ∈ HostRoutine.offered ∧ name ≠ "unwind") : m.Anchored where
  tidy := htidy
  top := htop
  steady := by
    refine .inl fun address routine hroutine floor => ?_
    obtain ⟨name, hoffered, hname⟩ := hheap address routine hroutine
    exact HostRoutine.staysAbove_of_offered hoffered hname floor

end Machine

end ScriptCore
