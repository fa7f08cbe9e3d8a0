import Mathlib.Data.List.Forall2
import ScriptCore.Proofs.Scope.Lifetime

/-!
# Arenas whose records correspond

Two runs of one program may differ in which records they make when, and so in the handles of
records. `Paired pairs a b` says that a relation pairs records of `a` with records of `b`: they are
live, they are alike up to the handles in their links, and none has two partners.

Whatever is done to paired records leaves the arenas paired, and the records of the first arena that
have no partner are left alone (`Apart`).

That no record has two partners matters when a record is changed: the change then shows in one
record of each arena, and every other pair is as it was.  A pair is added when both sides make a
record (`Paired.extend`); when records are freed, the pairs of those that are left stay.
-/

namespace ScriptCore

variable {pairs : RecordId → RecordId → Prop}

/-- Bindings that are the same up to the handle of a link. -/
inductive Binding.Alike (pairs : RecordId → RecordId → Prop) : Binding → Binding → Prop
  | value (value : Value) : Alike pairs (.value value) (.value value)
  | link {owner owner' : RecordId} (howner : pairs owner owner') :
      Alike pairs (.link owner) (.link owner')

/-- Records that are the same up to the handles in their links and the level. -/
structure Record.Alike (pairs : RecordId → RecordId → Prop) (r r' : Record) : Prop where
  name : r'.name = r.name
  kind : r'.kind = r.kind
  locked : r'.locked = r.locked
  captured : r'.captured = r.captured
  members : List.Forall₂ (fun entry entry' => entry'.1 = entry.1 ∧ entry.2.Alike pairs entry'.2)
    r.members.entries r'.members.entries

theorem Binding.Alike.mono {b b' : Binding} (hb : b.Alike pairs b')
    {wider : RecordId → RecordId → Prop} (hwider : ∀ id id', pairs id id' → wider id id') :
    b.Alike wider b' := by
  cases hb with
  | value value => exact .value value
  | link howner => exact .link (hwider _ _ howner)

theorem Binding.Alike.swap {b b' : Binding} (hb : b.Alike pairs b') :
    b'.Alike (fun id' id => pairs id id') b := by
  cases hb with
  | value value => exact .value value
  | link howner => exact .link howner

namespace Record

variable {r r' : Record}

theorem Alike.mono (hr : r.Alike pairs r') {wider : RecordId → RecordId → Prop}
    (hwider : ∀ id id', pairs id id' → wider id id') : r.Alike wider r' :=
  { hr with members := hr.members.imp fun _ _ hentry => ⟨hentry.1, hentry.2.mono hwider⟩ }

theorem Alike.swap (hr : r.Alike pairs r') : r'.Alike (fun id' id => pairs id id') r where
  name := hr.name.symm
  kind := hr.kind.symm
  locked := hr.locked.symm
  captured := hr.captured.symm
  members := hr.members.flip.imp fun _ _ hentry => ⟨hentry.1.symm, hentry.2.swap⟩

/-- A record is alike to itself if the owners to which it links are paired with themselves. -/
theorem Alike.refl (hlinks : ∀ name owner, (name, .link owner) ∈ r.members.entries →
    pairs owner owner) :
    r.Alike pairs r where
  name := rfl
  kind := rfl
  locked := rfl
  captured := rfl
  members := by
    refine List.forall₂_same.2 fun ⟨name, binding⟩ hentry => ⟨rfl, ?_⟩
    cases binding with
    | value value => exact .value value
    | link owner => exact .link (hlinks name owner hentry)

private theorem rel_find? {α β : Type} {R : α → β → Prop} {p : α → Bool} {q : β → Bool}
    (hpq : ∀ x y, R x y → p x = q y) {xs : List α} {ys : List β} (hrel : List.Forall₂ R xs ys) :
    (xs.find? p = none ∧ ys.find? q = none) ∨
      ∃ x y, xs.find? p = some x ∧ ys.find? q = some y ∧ R x y := by
  induction hrel with
  | nil => exact .inl ⟨rfl, rfl⟩
  | @cons x y _ _ hxy _ ih =>
      rw [List.find?_cons, List.find?_cons, hpq x y hxy]
      cases q y with
      | true => exact .inr ⟨x, y, rfl, rfl, hxy⟩
      | false => exact ih

/-- A name stands for nothing in records that are alike, or for one value, or for owners that are
paired. -/
theorem Alike.member? (hr : r.Alike pairs r') (hvalid : r.members.Valid)
    (hvalid' : r'.members.Valid)
    (name : String) :
    (r.member? name = none ∧ r'.member? name = none) ∨
    (∃ value, r.member? name = some (.value value) ∧ r'.member? name = some (.value value)) ∨
    ∃ owner owner', r.member? name = some (.link owner) ∧ r'.member? name = some (.link owner') ∧
      pairs owner owner' := by
  rw [Record.member?, Record.member?, hvalid.find?_eq, hvalid'.find?_eq]
  have hnames : ∀ entry entry' : String × Binding,
      entry'.1 = entry.1 ∧ entry.2.Alike pairs entry'.2 → (entry.1 == name) = (entry'.1 == name) :=
    fun entry entry' hentry => by rw [hentry.1]
  rcases rel_find? hnames hr.members with
    ⟨hnone, hnone'⟩ | ⟨⟨_, binding⟩, ⟨_, binding'⟩, hfound, hfound', -, halike⟩
  · exact .inl ⟨by rw [hnone, Option.map_none], by rw [hnone', Option.map_none]⟩
  · rw [hfound, hfound', Option.map_some, Option.map_some]
    cases halike with
    | value value => exact .inr (.inl ⟨value, rfl, rfl⟩)
    | link howner => exact .inr (.inr ⟨_, _, rfl, rfl, howner⟩)

/-- Binding the same in records that are alike. -/
theorem Alike.bind (hr : r.Alike pairs r') (hvalid : r.members.Valid) (hvalid' : r'.members.Valid)
    (name : String) {b b' : Binding} (hb : b.Alike pairs b') :
    (r.bind name b).Alike pairs (r'.bind name b') where
  name := hr.name
  kind := hr.kind
  locked := hr.locked
  captured := hr.captured
  members := by
    simp only [Record.bind, (hvalid.set name b).2, (hvalid'.set name b').2]
    refine List.rel_append (List.rel_filter ?_ hr.members) (.cons ⟨rfl, hb⟩ .nil)
    rintro entry entry' ⟨hname, -⟩
    simp [hname]

theorem Alike.pinned (hr : r.Alike pairs r') : r.pinned.Alike pairs r'.pinned :=
  { hr with captured := rfl }

/-- Records that were made for scopes that are alike. -/
theorem Alike.linked (hr : r.Alike pairs r') (hvalid : r.members.Valid) (hvalid' : r'.members.Valid)
    {id id' : RecordId} (hpair : pairs id id') (name : String) (kind : RecordKind) :
    (ScopeArena.withLinks (.fresh name kind) (ScopeArena.linksInto id r)).Alike pairs
      (ScopeArena.withLinks (.fresh name kind) (ScopeArena.linksInto id' r')) := by
  rw [ScopeArena.withLinks_eq _ (ScopeArena.linksInto id r),
    ScopeArena.withLinks_eq _ (ScopeArena.linksInto id' r')]
  refine ⟨rfl, rfl, rfl, rfl, ?_⟩
  dsimp only
  rw [(ScopeArena.entries_linked name kind hvalid id).2,
    (ScopeArena.entries_linked name kind hvalid' id').2]
  refine List.rel_map (fun {entry entry'} hentry => ⟨hentry.1, .link ?_⟩) hr.members
  rcases entry with ⟨_, _ | _⟩ <;> rcases entry' with ⟨_, _ | _⟩ <;> rcases hentry with ⟨-, _ | _⟩
  · exact hpair
  · assumption

end Record

namespace ScopeArena

/-- Records that are paired are live and alike, and none has two partners. -/
structure Paired (pairs : RecordId → RecordId → Prop) (a b : ScopeArena) : Prop where
  alike : ∀ id id', pairs id id' → ∃ record record', a.record? id = some record ∧
    b.record? id' = some record' ∧ record.Alike pairs record'
  injective : ∀ id id' other other', pairs id id' → pairs other other' →
    (id = other ↔ id' = other')

/-- What has no partner is left alone. -/
def Apart (pairs : RecordId → RecordId → Prop) (a a' : ScopeArena) : Prop :=
  ∀ id, (∀ id', ¬ pairs id id') → a'.record? id = a.record? id

variable {usable : Value → Prop} {a b : ScopeArena} {stack stack' : List RecordId}
  {id id' : RecordId} {record record' : Record}

theorem Paired.swap (hab : Paired pairs a b) : Paired (fun id' id => pairs id id') b a where
  alike id' id hpair := by
    obtain ⟨record, record', hrecord, hrecord', halike⟩ := hab.alike id id' hpair
    exact ⟨record', record, hrecord', hrecord, halike.swap⟩
  injective id' id other' other hpair hother :=
    (hab.injective id id' other other' hpair hother).symm

theorem Paired.alike_of_record? (hab : Paired pairs a b) (hpair : pairs id id')
    (hrecord : a.record? id = some record) (hrecord' : b.record? id' = some record') :
    record.Alike pairs record' := by
  obtain ⟨found, found', hfound, hfound', halike⟩ := hab.alike id id' hpair
  obtain rfl := Option.some.inj (hfound.symm.trans hrecord)
  obtain rfl := Option.some.inj (hfound'.symm.trans hrecord')
  exact halike

/-- Paired records may be exchanged for others that are alike. -/
theorem Paired.put (hab : Paired pairs a b) (hpair : pairs id id') {new new' : Record}
    (hnew : new.Alike pairs new') :
    Paired pairs (a.put id.index new) (b.put id'.index new') ∧
    Apart pairs a (a.put id.index new) := by
  obtain ⟨record, record', hrecord, hrecord', -⟩ := hab.alike id id' hpair
  refine ⟨⟨fun other other' hother => ?_, hab.injective⟩, fun other hother => ?_⟩
  · rw [record?_put hrecord, record?_put hrecord']
    have hsame := hab.injective other other' id id' hother hpair
    by_cases hid : other = id
    · rw [if_pos hid, if_pos (hsame.1 hid)]
      exact ⟨new, new', rfl, rfl, hnew⟩
    · rw [if_neg hid, if_neg fun hid' => hid (hsame.2 hid')]
      exact hab.alike other other' hother
  · rw [record?_put hrecord, if_neg]
    rintro rfl
    exact hother id' hpair

/-! ## Names -/

theorem Paired.define (hab : Paired pairs a b) (ha : a.Sound usable stack)
    (hb : b.Sound usable stack') (hpair : pairs id id') (name : String) (value : Value) :
    (b.define id' name value).1 = (a.define id name value).1 ∧
      Paired pairs (a.define id name value).2 (b.define id' name value).2 ∧
      Apart pairs a (a.define id name value).2 := by
  obtain ⟨record, record', hrecord, hrecord', halike⟩ := hab.alike id id' hpair
  rw [define_of_record? hrecord, define_of_record? hrecord']
  exact ⟨rfl, hab.put hpair (halike.bind (ha.records id record hrecord).valid
    (hb.records id' record' hrecord').valid name (.value value))⟩

/-- A name stands for the same value as seen from paired records. -/
theorem Paired.lookup (hab : Paired pairs a b) (ha : a.Sound usable stack)
    (hb : b.Sound usable stack') (hpair : pairs id id') (name : String) :
    b.lookup id' name = a.lookup id name := by
  obtain ⟨record, record', hrecord, hrecord', halike⟩ := hab.alike id id' hpair
  have hlookup := ha.lookup_eq hrecord name
  have hlookup' := hb.lookup_eq hrecord' name
  rcases halike.member? (ha.records id record hrecord).valid (hb.records id' record' hrecord').valid
    name with ⟨hbound, hbound'⟩ | ⟨value, hbound, hbound'⟩ |
      ⟨owner, owner', hbound, hbound', howner⟩
  · have hfails : a.lookup id name = .error (.undefinedName name) := by simpa [hbound] using hlookup
    have hfails' : b.lookup id' name = .error (.undefinedName name) := by
      simpa [hbound'] using hlookup'
    rw [hfails, hfails']
  · have hfound : a.lookup id name = .ok value := by simpa [hbound] using hlookup
    have hfound' : b.lookup id' name = .ok value := by simpa [hbound'] using hlookup'
    rw [hfound, hfound']
  · -- The owners are paired as well, and they bind the name themselves.
    obtain ⟨held, value, hheld, hvalue, hfound⟩ : ∃ held value, a.record? owner = some held ∧
        held.member? name = some (.value value) ∧ a.lookup id name = .ok value := by
      simpa [hbound] using hlookup
    obtain ⟨held', value', hheld', hvalue', hfound'⟩ : ∃ held value, b.record? owner' = some held ∧
        held.member? name = some (.value value) ∧ b.lookup id' name = .ok value := by
      simpa [hbound'] using hlookup'
    have hmember := (hab.alike_of_record? howner hheld hheld').member?
      (ha.records owner held hheld).valid (hb.records owner' held' hheld').valid name
    obtain rfl : value' = value := by simpa [hvalue, hvalue'] using hmember
    rw [hfound, hfound']

/-- Assigning to a name as seen from paired records. -/
theorem Paired.assign (hab : Paired pairs a b) (ha : a.Sound usable stack)
    (hb : b.Sound usable stack') (hpair : pairs id id') (name : String) (value : Value) :
    (b.assign id' name value).1 = (a.assign id name value).1 ∧
      Paired pairs (a.assign id name value).2 (b.assign id' name value).2 ∧
      Apart pairs a (a.assign id name value).2 := by
  obtain ⟨record, record', hrecord, hrecord', halike⟩ := hab.alike id id' hpair
  have hassign := ha.assign_eq hrecord name value
  have hassign' := hb.assign_eq hrecord' name value
  have hmember := halike.member? (ha.records id record hrecord).valid
    (hb.records id' record' hrecord').valid name
  rcases hassign with ⟨hlock, hsame⟩ | ⟨hlock, hnolink, hput⟩ |
    ⟨owner, held, hlock, hlink, hheld, hput⟩
  · have hlock' : record'.locked = true := halike.locked.trans hlock
    have hsame' : b.assign id' name value = (.ok (), b) := by simpa [hlock'] using hassign'
    rw [hsame, hsame']
    exact ⟨rfl, hab, fun _ _ => rfl⟩
  · have hlock' : record'.locked = false := halike.locked.trans hlock
    -- Alike records bind the name alike, so neither links it to an owner.
    have hnolink' : ∀ owner, record'.member? name ≠ some (.link owner) := by
      intro owner hlink'
      rcases hmember with ⟨-, hbound'⟩ | ⟨_, -, hbound'⟩ | ⟨owner, -, hbound, -, -⟩
      · simp [hbound'] at hlink'
      · simp [hbound'] at hlink'
      · exact hnolink owner hbound
    have hput' : b.assign id' name value =
        (.ok (), b.put id'.index (record'.bind name (.value value))) := by
      simpa [hlock', hnolink'] using hassign'
    rw [hput, hput']
    exact ⟨rfl, hab.put hpair (halike.bind (ha.records id record hrecord).valid
      (hb.records id' record' hrecord').valid name (.value value))⟩
  · have hlock' : record'.locked = false := halike.locked.trans hlock
    obtain ⟨owner', hlink', howner⟩ : ∃ owner', record'.member? name = some (.link owner') ∧
        pairs owner owner' := by
      simpa [hlink] using hmember
    obtain ⟨held', hheld', hput'⟩ : ∃ held, b.record? owner' = some held ∧
        b.assign id' name value = (.ok (),
          if held.locked then b else b.put owner'.index (held.bind name (.value value))) := by
      simpa [hlock', hlink'] using hassign'
    have hheldAlike := hab.alike_of_record? howner hheld hheld'
    rw [hput, hput', hheldAlike.locked]
    refine ⟨rfl, ?_⟩
    dsimp only
    split
    · exact ⟨hab, fun _ _ => rfl⟩
    · exact hab.put howner (hheldAlike.bind (ha.records owner held hheld).valid
        (hb.records owner' held' hheld').valid name (.value value))

/-! ## Capturing -/

/-- What is reached by links from one of two paired records is paired with what is reached from the
other. -/
theorem Paired.linkReached (hab : Paired pairs a b) (ha : a.Sound usable stack)
    (hb : b.Sound usable stack') (hpair : pairs id id') {other : RecordId}
    (hreached : LinkReached a id other) :
    ∃ other', pairs other other' ∧ LinkReached b id' other' := by
  induction hreached with
  | self => exact ⟨id', hpair, .self⟩
  | @link via owner record _ hrecord hlink ih =>
      obtain ⟨via', hvia, hreached'⟩ := ih
      obtain ⟨held, held', hheld, hheld', halike⟩ := hab.alike via via' hvia
      obtain rfl : held = record := Option.some.inj (hheld.symm.trans hrecord)
      have hvalid := (ha.records via held hheld).valid
      have hvalid' := (hb.records via' held' hheld').valid
      obtain ⟨name, hbound⟩ := (mem_links_iff hvalid).1 hlink
      rcases halike.member? hvalid hvalid' name with
        ⟨hnone, -⟩ | ⟨value, hvalue, -⟩ | ⟨found, owner', hfound, hbound', howner⟩
      · simp [hbound] at hnone
      · simp [hbound] at hvalue
      · obtain rfl : owner = found := by simpa [hbound] using hfound
        exact ⟨owner', howner, .link hreached' hheld' ((mem_links_iff hvalid').2 ⟨name, hbound'⟩)⟩

/-- Capturing paired records captures records that are paired. -/
theorem Paired.capture (hab : Paired pairs a b) (ha : a.Sound usable stack)
    (hb : b.Sound usable stack') (hpair : pairs id id') :
    Paired pairs (a.capture id).2 (b.capture id').2 ∧ Apart pairs a (a.capture id).2 := by
  obtain ⟨record, record', hrecord, hrecord', -⟩ := hab.alike id id' hpair
  have hrecord? := record?_capture fun _ hreached =>
    ha.isLive_of_linkReached (isLive_of_record? hrecord) hreached
  have hrecord?' := record?_capture fun _ hreached =>
    hb.isLive_of_linkReached (isLive_of_record? hrecord') hreached
  -- Links of paired records are paired, so the walks over both arenas reach partners.
  have hreached : ∀ other other', pairs other other' →
      (LinkReached a id other ↔ LinkReached b id' other') := by
    intro other other' hother
    constructor
    · intro hreached
      obtain ⟨found, hfound, hreached'⟩ := hab.linkReached ha hb hpair hreached
      exact (hab.injective _ _ _ _ hother hfound).1 rfl ▸ hreached'
    · intro hreached'
      obtain ⟨found, hfound, hreached⟩ := hab.swap.linkReached hb ha hpair hreached'
      exact (hab.injective _ _ _ _ hother hfound).2 rfl ▸ hreached
  refine ⟨⟨fun other other' hother => ?_, hab.injective⟩, fun other hother => ?_⟩
  · obtain ⟨held, held', hheld, hheld', halike⟩ := hab.alike other other' hother
    rw [hrecord?, hrecord?', hheld, hheld']
    by_cases hyes : LinkReached a id other
    · rw [if_pos hyes, if_pos ((hreached other other' hother).1 hyes)]
      exact ⟨held.pinned, held'.pinned, rfl, rfl, halike.pinned⟩
    · rw [if_neg hyes, if_neg fun hyes' => hyes ((hreached other other' hother).2 hyes')]
      exact ⟨held, held', rfl, rfl, halike⟩
  · -- All that is reached has a partner.
    rw [hrecord?, if_neg]
    intro hyes
    obtain ⟨other', hother', -⟩ := hab.linkReached ha hb hpair hyes
    exact hother other' hother'

/-! ## Records that come and go -/

/-- New records on both sides are paired. -/
theorem Paired.extend (hab : Paired pairs a b) {a' b' : ScopeArena} (hnew : a.record? id = none)
    (hnew' : b.record? id' = none)
    (hrecords : ∀ other, a'.record? other = if other = id then some record else a.record? other)
    (hrecords' : ∀ other, b'.record? other = if other = id' then some record' else b.record? other)
    (halike : record.Alike pairs record') :
    Paired (fun other other' => pairs other other' ∨ other = id ∧ other' = id') a' b' := by
  -- The two new handles were dead, so neither is in a pair yet.
  have hold : ∀ other other', pairs other other' → other ≠ id ∧ other' ≠ id' := by
    intro other other' hother
    obtain ⟨held, held', hheld, hheld', -⟩ := hab.alike other other' hother
    refine ⟨?_, ?_⟩
    · rintro rfl
      simp [hnew] at hheld
    · rintro rfl
      simp [hnew'] at hheld'
  refine ⟨?_, ?_⟩
  · rintro other other' (hother | ⟨rfl, rfl⟩)
    · obtain ⟨hne, hne'⟩ := hold other other' hother
      obtain ⟨held, held', hheld, hheld', hheldAlike⟩ := hab.alike other other' hother
      exact ⟨held, held', by rw [hrecords, if_neg hne, hheld], by
        rw [hrecords', if_neg hne', hheld'],
        hheldAlike.mono fun _ _ => .inl⟩
    · exact ⟨record, record', by rw [hrecords, if_pos rfl], by rw [hrecords', if_pos rfl],
        halike.mono fun _ _ => .inl⟩
  · rintro x x' y y' (hx | ⟨rfl, rfl⟩) (hy | ⟨rfl, rfl⟩)
    · exact hab.injective x x' y y' hx hy
    · exact iff_of_false (hold x x' hx).1 (hold x x' hx).2
    · exact iff_of_false (hold y y' hy).1.symm (hold y y' hy).2.symm
    · exact iff_of_true rfl rfl

/-- Where records were freed only those that are left stay paired. -/
theorem Paired.restrict (hab : Paired pairs a b) {b' : ScopeArena} (hb' : b'.Sound usable stack')
    (hrecords : ∀ id', b'.isLive id' = true → b'.record? id' = b.record? id') :
    Paired (fun id id' => pairs id id' ∧ b'.isLive id' = true) a b' where
  alike id id' hpair := by
    obtain ⟨record, record', hrecord, hrecord', halike⟩ := hab.alike id id' hpair.1
    rw [← hrecords id' hpair.2] at hrecord'
    have hsound := hb'.records id' record' hrecord'
    obtain ⟨hlength, hentries⟩ := List.forall₂_iff_zip.1 halike.members
    refine ⟨record, record', hrecord, hrecord', { halike with members := ?_ }⟩
    refine List.forall₂_iff_zip.2 ⟨hlength, fun {entry entry'} hmem => ?_⟩
    obtain ⟨hname, hbinding⟩ := hentries hmem
    refine ⟨hname, ?_⟩
    -- What a record links to is live as long as the record is.
    have hlive : ∀ owner', entry'.2 = .link owner' → b'.isLive owner' = true := by
      intro owner' hlink
      refine (hsound.owned entry'.1 owner' (hsound.valid.find?_eq_some_iff.2 ?_)).isLive
      rw [← hlink]
      exact (List.of_mem_zip hmem).2
    generalize entry.2 = binding at hbinding
    generalize entry'.2 = binding' at hbinding hlive
    cases hbinding with
    | value value => exact .value value
    | link howner => exact .link ⟨howner, hlive _ rfl⟩
  injective id id' other other' hpair hother := hab.injective id id' other other' hpair.1 hother.1

theorem Paired.of_same (hab : Paired pairs a b) {a' : ScopeArena}
    (hrecords : ∀ id id', pairs id id' → a'.record? id = a.record? id) : Paired pairs a' b where
  alike id id' hpair := by
    rw [hrecords id id' hpair]
    exact hab.alike id id' hpair
  injective := hab.injective

end ScopeArena

end ScriptCore
