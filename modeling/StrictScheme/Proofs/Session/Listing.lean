/-
# Listings and look-ups

A listing shows what looking up finds: one line for each name that is found, with the
value that is found for it (`Store.mem_listing`), in the order of the names
(`Store.ascending_listing`).

It can be made scope by scope as well.  Going outward from the scope, the bindings of each
scope on the way are entered one after the other, each name at its place among the names
entered before, and a name that has a line already is passed over (`Binding.enterAll`).
In which order the bindings of one scope come does not matter (`Table.IsEnumeration`,
`Store.Gathers`): whatever it is, the first binding of a name that comes by is the one that
looking up finds (`Store.Gathers.lookup_eq`), so the result is the listing
(`Store.Gathers.enterAll_eq`).
-/

import StrictScheme.Proofs.Store.Chain

namespace StrictScheme

variable {name key : String} {v : Value} {line : Binding} {lines : List Binding}
  {entries rest : List (String × Value)} {store : Store} {s t p : ScopeId} {scope : Scope}

/-! ### Lines in the order of their names -/

namespace Binding

/-- Each line comes before those with greater names, so no name has two lines. -/
def Ascending (lines : List Binding) : Prop :=
  lines.Pairwise fun a b => a.name < b.name

/-- No line comes twice. -/
theorem Ascending.nodup (h : Ascending lines) : lines.Nodup := by
  refine List.Pairwise.imp ?_ h
  rintro a b hlt rfl
  exact String.lt_irrefl _ hlt

/-- Lines in the order of their names are determined by which lines there are. -/
theorem Ascending.eq_of_mem_iff {lines' : List Binding} (h : Ascending lines)
    (h' : Ascending lines') (hmem : ∀ line, line ∈ lines ↔ line ∈ lines') : lines = lines' := by
  have hperm : lines.Perm lines' := (List.perm_ext_iff_of_nodup h.nodup h'.nodup).2 hmem
  refine hperm.eq_of_pairwise (fun a b _ _ hab hba => ?_) h h'
  exact absurd hba (String.lt_asymm hab)

/-- Enters a line for a name at its place, unless the name has a line already. -/
def enter (name : String) (v : Value) : List Binding → List Binding
  | [] => [ofValue name v]
  | line :: lines =>
    if name < line.name then ofValue name v :: line :: lines
    else if name = line.name then line :: lines
    else line :: enter name v lines

/-- The lines for some names and values, entered one after the other. -/
def enterAll (entries : List (String × Value)) : List Binding :=
  entries.foldl (fun lines entry => enter entry.1 entry.2 lines) []

/-- Entering a name adds its line, unless there is one already. -/
theorem mem_enter (h : Ascending lines) :
    line ∈ enter name v lines ↔
      line ∈ lines ∨ line = ofValue name v ∧ ∀ other ∈ lines, other.name ≠ name := by
  induction lines with
  | nil => simp [enter]
  | cons first lines ih =>
    obtain ⟨hfirst, hlines⟩ := List.pairwise_cons.1 h
    unfold enter
    split
    · next hlt =>
      -- every line has a greater name
      have hne : ∀ other ∈ first :: lines, other.name ≠ name := by
        rintro other hother rfl
        rcases List.mem_cons.1 hother with rfl | hother
        · exact String.lt_irrefl _ hlt
        · exact String.lt_asymm hlt (hfirst other hother)
      rw [List.mem_cons, or_comm, and_iff_left hne]
    · split
      · next heq => simp [heq]
      · next hne =>
        rw [List.mem_cons, ih hlines, List.mem_cons, List.forall_mem_cons, or_assoc,
          and_iff_right (Ne.symm hne)]

/-- Entering a name keeps the lines in order. -/
theorem Ascending.enter (h : Ascending lines) (name : String) (v : Value) :
    Ascending (enter name v lines) := by
  induction lines with
  | nil => exact List.pairwise_singleton ..
  | cons first lines ih =>
    obtain ⟨hfirst, hlines⟩ := List.pairwise_cons.1 h
    unfold Binding.enter
    split
    · next hlt =>
      refine List.pairwise_cons.2 ⟨fun other hother => ?_, h⟩
      rcases List.mem_cons.1 hother with rfl | hother
      · exact hlt
      · exact String.lt_trans hlt (hfirst other hother)
    · split
      · exact h
      · next hle hne =>
        refine List.pairwise_cons.2 ⟨fun other hother => ?_, ih hlines⟩
        rcases (mem_enter hlines).1 hother with hother | ⟨rfl, -⟩
        · exact hfirst other hother
        · by_contra hlt
          exact hne (String.le_antisymm (String.not_lt.1 hlt) (String.not_lt.1 hle))

/-- Entries are entered one after the other. -/
theorem enterAll_concat (entries : List (String × Value)) (name : String) (v : Value) :
    enterAll (entries ++ [(name, v)]) = enter name v (enterAll entries) := by
  rw [enterAll, List.foldl_append]
  rfl

/-- Whatever is entered, the lines are in order. -/
theorem ascending_enterAll (entries : List (String × Value)) : Ascending (enterAll entries) := by
  induction entries using List.reverseRecOn with
  | nil => exact .nil
  | append_singleton entries entry ih =>
    rw [enterAll_concat]
    exact ih.enter ..

/-- **Each name has a line for its first value.** -/
theorem mem_enterAll :
    line ∈ enterAll entries ↔
      ∃ v, entries.lookup line.name = some v ∧ line = ofValue line.name v := by
  induction entries using List.reverseRecOn generalizing line with
  | nil => simp [enterAll]
  | append_singleton entries entry ih =>
    obtain ⟨name, v⟩ := entry
    have hnone : (∀ other ∈ enterAll entries, other.name ≠ name) ↔ entries.lookup name = none := by
      constructor
      · intro h
        refine Option.eq_none_iff_forall_ne_some.2 fun w hw => ?_
        exact h (ofValue name w) (ih.2 ⟨w, hw, rfl⟩) rfl
      · rintro h other hother rfl
        obtain ⟨w, hw, -⟩ := ih.1 hother
        rw [h] at hw
        cases hw
    have hlast : [(name, v)].lookup line.name = if line.name = name then some v else none := by
      by_cases heq : line.name = name
      · rw [if_pos heq, heq, List.lookup_cons_self]
      · rw [if_neg heq, List.lookup_cons, beq_false_of_ne heq, List.lookup_nil]
    rw [enterAll_concat, mem_enter (ascending_enterAll entries), ih, hnone, List.lookup_append,
      hlast]
    by_cases hname : line.name = name
    · subst hname
      cases entries.lookup line.name <;> simp
    · have hne (w : Value) : line ≠ ofValue name w := fun heq => hname (congrArg Binding.name heq)
      simp [hname, hne]

end Binding

/-! ### Enumerating bindings -/

/-- The entries of a table in some order, each name once. -/
structure Table.IsEnumeration (table : Table Value) (entries : List (String × Value)) : Prop where
  nodup : (entries.map (·.1)).Nodup
  mem : ∀ {name v}, (name, v) ∈ entries ↔ table.get? name = some v

namespace Table.IsEnumeration

variable {table : Table Value}

/-- However the bindings of a scope are enumerated, a name stands for what it is bound to. -/
theorem lookup_eq (h : table.IsEnumeration entries) (name : String) :
    entries.lookup name = table.get? name := by
  cases hget : table.get? name with
  | some v =>
    obtain ⟨front, back, rfl⟩ := List.append_of_mem (h.mem.2 hget)
    have hfront : front.lookup name = none := by
      have hnodup := h.nodup
      rw [List.map_append, List.map_cons, List.nodup_middle, List.nodup_cons] at hnodup
      refine List.lookup_eq_none_iff.2 fun pair hpair => bne_iff_ne.2 fun heq => ?_
      exact hnodup.1 (List.mem_append_left _ (List.mem_map.2 ⟨pair, hpair, heq.symm⟩))
    rw [List.lookup_append, hfront, Option.none_or, List.lookup_cons_self]
  | none =>
    refine List.lookup_eq_none_iff.2 fun pair hpair => bne_iff_ne.2 ?_
    rintro rfl
    rw [h.mem.1 hpair] at hget
    cases hget

/-- Every table can be enumerated. -/
theorem exists_entries (table : Table Value) : ∃ entries, table.IsEnumeration entries := by
  obtain ⟨held⟩ := table
  induction held with
  | nil => exact ⟨[], List.nodup_nil, by simp [get?, Table.lookup]⟩
  | cons entry rest ih =>
    obtain ⟨key, first⟩ := entry
    obtain ⟨entries, hnodup, hmem⟩ := ih
    refine ⟨(key, first) :: entries.filter (·.1 ≠ key), ?_, fun {name v} => ?_⟩
    · rw [List.map_cons, List.nodup_cons]
      refine ⟨by simp, List.Pairwise.sublist ?_ hnodup⟩
      exact List.filter_sublist.map _
    · have hget : (⟨(key, first) :: rest⟩ : Table Value).get? name =
          if key = name then some first else (⟨rest⟩ : Table Value).get? name := rfl
      rw [List.mem_cons, List.mem_filter, hmem, hget]
      by_cases hkey : key = name
      · simp [hkey, eq_comm]
      · simp [hkey, Ne.symm hkey]

end Table.IsEnumeration

namespace Store

/-- The bindings that come by on the way outward from a scope, those of each scope in some
order. -/
inductive Gathers (store : Store) : ScopeId → List (String × Value) → Prop
  | root {s : ScopeId} {scope : Scope} {entries : List (String × Value)}
      (hs : store.scope? s = some scope) (hp : scope.parent? = none)
      (hentries : scope.bindings.IsEnumeration entries) : Gathers store s entries
  | inside {s p : ScopeId} {scope : Scope} {entries rest : List (String × Value)}
      (hs : store.scope? s = some scope) (hp : scope.parent? = some p)
      (hentries : scope.bindings.IsEnumeration entries) (h : Gathers store p rest) :
      Gathers store s (entries ++ rest)

/-- What a scope binds a name to. -/
theorem local?_eq_get? (hs : store.scope? s = some scope) (name : String) :
    store.local? s name = scope.bindings.get? name := by
  rw [local?, hs, Option.bind_some]

/-- **The first binding of a name that comes by is the one that looking up finds.** -/
theorem Gathers.lookup_eq (h : store.Gathers s entries) (hsound : store.Sound) (name : String) :
    entries.lookup name = store.lookup s name := by
  induction h with
  | root hs hp hentries =>
    have hchain := chain_eq hs
    rw [List.head?_eq_none_iff.1 hp] at hchain
    rw [hentries.lookup_eq, lookup_of_chain_eq_singleton hchain, local?_eq_get? hs]
  | inside hs hp hentries _ ih =>
    have hchain := ClosedOn.chain_parent hsound (Set.mem_univ _) hs hp
    rw [List.lookup_append, hentries.lookup_eq, ih, lookup_of_chain_eq_cons hchain,
      local?_eq_get? hs]

/-- There is a way to go outward from every scope. -/
theorem Sound.exists_gathers (h : store.Sound) (hs : store.Has s) :
    ∃ entries, store.Gathers s entries := by
  refine ClosedOn.chain_induction h (motive := fun s => ∃ entries, store.Gathers s entries)
    ?root ?inside (Set.mem_univ s) hs
  case root =>
    intro s scope _ hscope hp _
    obtain ⟨entries, hentries⟩ := Table.IsEnumeration.exists_entries scope.bindings
    exact ⟨entries, .root hscope hp hentries⟩
  case inside =>
    rintro s p scope _ hscope hp - ⟨rest, hrest⟩
    obtain ⟨entries, hentries⟩ := Table.IsEnumeration.exists_entries scope.bindings
    exact ⟨entries ++ rest, .inside hscope hp hentries hrest⟩

/-! ### The listing -/

/-- Sorted names that are different ascend. -/
theorem pairwise_sortNames {names : List String} (h : names.Nodup) :
    (sortNames names).Pairwise (· < ·) := by
  have hle : (sortNames names).Pairwise (· ≤ ·) := by
    refine (List.pairwise_mergeSort (fun a b c hab hbc => ?_) (fun a b => ?_) names).imp ?_
    · exact decide_eq_true (String.le_trans (of_decide_eq_true hab) (of_decide_eq_true hbc))
    · simpa using String.le_total a b
    · exact of_decide_eq_true
  have hnodup : (sortNames names).Nodup := (List.mergeSort_perm ..).nodup_iff.2 h
  refine hle.imp₂ (fun a b hab hne => ?_) hnodup
  by_contra hlt
  exact hne (String.le_antisymm hab (String.not_lt.1 hlt))

/-- The names listed are those that one of the scopes binds. -/
theorem mem_namesIn {listed : List ScopeId} :
    name ∈ store.namesIn listed ↔ ∃ t ∈ listed, store.bindsLocally t name = true := by
  rw [namesIn, List.mem_eraseDups, List.mem_flatMap]
  refine exists_congr fun t => and_congr_right fun _ => ?_
  rw [bindsLocally, local?]
  cases store.scope? t with
  | none => simp
  | some scope => exact Table.mem_names_iff

/-- The names on the way outward are those that are found. -/
theorem mem_namesIn_chain :
    name ∈ store.namesIn (store.chain s) ↔ ∃ v, store.lookup s name = some v := by
  rw [mem_namesIn, ← Option.ne_none_iff_exists', ne_eq, lookup_eq_none_iff, binder?,
    List.find?_eq_none]
  simp

/-- **A listing has a line for each name that is found**, which shows the value that is found. -/
theorem mem_listing :
    line ∈ store.listing s ↔
      ∃ v, store.lookup s line.name = some v ∧ line = Binding.ofValue line.name v := by
  have hsorted {name : String} : name ∈ sortNames (store.namesIn (store.chain s)) ↔
      ∃ v, store.lookup s name = some v :=
    (List.mergeSort_perm ..).mem_iff.trans mem_namesIn_chain
  rw [listing, List.mem_filterMap]
  constructor
  · rintro ⟨name, -, hline⟩
    obtain ⟨v, hv, rfl⟩ := Option.map_eq_some_iff.1 hline
    exact ⟨v, hv, rfl⟩
  · rintro ⟨v, hv, hline⟩
    exact ⟨line.name, hsorted.2 ⟨v, hv⟩, by rw [hv, Option.map_some, ← hline]⟩

/-- **A listing is in order**, with each name once. -/
theorem ascending_listing (store : Store) (s : ScopeId) : Binding.Ascending (store.listing s) := by
  refine List.pairwise_filterMap.2 ((pairwise_sortNames (nodup_eraseDups _)).imp ?_)
  rintro name other hlt line hline line' hline'
  obtain ⟨v, -, rfl⟩ := Option.map_eq_some_iff.1 hline
  obtain ⟨w, -, rfl⟩ := Option.map_eq_some_iff.1 hline'
  exact hlt

/-- **Entering scope by scope gives the listing**, in whatever order the bindings of a scope
come. -/
theorem Gathers.enterAll_eq (h : store.Gathers s entries) (hsound : store.Sound) :
    Binding.enterAll entries = store.listing s := by
  refine (Binding.ascending_enterAll entries).eq_of_mem_iff (ascending_listing store s)
    fun line => ?_
  rw [Binding.mem_enterAll, mem_listing, h.lookup_eq hsound]

end Store

namespace Session

variable {session : Session}

/-- Being asked for a listing changes nothing in a session in which nothing is left over. -/
theorem Settled.step_listing (h : session.Settled) {scopeName : ScopeName}
    (hname : session.named? scopeName = some s) (all : Bool) :
    session.step (.listing scopeName all) =
      (.listing (session.store.listing s).length
        ((session.store.listing s).filter fun line => all || !line.isBuiltin), session) := by
  have hperform : Host.perform (.listing scopeName all) session =
      .ok (.listing (session.store.listing s).length
        ((session.store.listing s).filter fun line => all || !line.isBuiltin)) session := by
    change (Host.scope scopeName >>= _) session = _
    simp only [Bind.bind, EStateM.bind, scope_eq_ok.2 hname]
    rfl
  rw [step, hperform]
  exact congrArg (Prod.mk _) h.settle_eq

/-- **Listings agree with look-ups.**  In every session that a host can come to, a listing is in
strictly ascending order of names; a name is listed just if looking it up finds something, and
then with the kind and the written form of what is found; and going outward scope by scope, in
whatever order the bindings of each scope come, gives the same listing.  Being asked for it changes
nothing. -/
theorem Reachable.listing_agrees (h : session.Reachable) (hs : session.store.Has s) :
    let listed := session.store.listing s
    listed.Pairwise (fun a b => a.name < b.name) ∧
    (∀ name, (∃ line ∈ listed, line.name = name) ↔
      ∃ v, session.store.lookup s name = some v) ∧
    (∀ line ∈ listed, ∃ v, session.store.lookup s line.name = some v ∧ line.kind = v.kind ∧
      line.text = v.print) ∧
    (∃ entries, session.store.Gathers s entries) ∧
    (∀ entries, session.store.Gathers s entries → Binding.enterAll entries = listed) ∧
    ∀ scopeName all, session.named? scopeName = some s →
      session.step (.listing scopeName all) =
        (.listing listed.length (listed.filter fun line => all || !line.isBuiltin), session) := by
  intro listed
  refine ⟨Store.ascending_listing .., fun name => ⟨?_, ?_⟩, fun line hline => ?_,
    h.sound.store.exists_gathers hs, fun entries hentries => hentries.enterAll_eq h.sound.store,
    fun scopeName all hname => h.settled.step_listing hname all⟩
  · rintro ⟨line, hline, rfl⟩
    obtain ⟨v, hv, -⟩ := Store.mem_listing.1 hline
    exact ⟨v, hv⟩
  · rintro ⟨v, hv⟩
    exact ⟨.ofValue name v, Store.mem_listing.2 ⟨v, hv, rfl⟩, rfl⟩
  · obtain ⟨v, hv, heq⟩ := Store.mem_listing.1 hline
    refine ⟨v, hv, ?_, ?_⟩
    · rw [heq]
      rfl
    · rw [heq]
      rfl

/-- A session in which an inner scope binds a name that the global scope binds too. -/
def shadowed : Session :=
  ((new {}).steps
    [.define .global "x" (.number 1), .newScope "a" (some .global),
      .define (.handle "a") "x" (.number 2)]).2

/-- The listing of the inner scope shows what is bound there. -/
theorem shadowed_listing_agrees :
    (∃ line ∈ shadowed.store.listing 1, line.name = "x" ∧ line.kind = "number" ∧
      line.text = "2") ∧
      (shadowed.step (.listing (.handle "a") false)).2 = shadowed := by
  have hreachable : shadowed.Reachable := (Reachable.new {}).steps _
  have hhas : shadowed.store.Has 1 := Option.isSome_iff_exists.1 (by decide +kernel)
  have hname : shadowed.named? (.handle "a") = some 1 := by decide +kernel
  have hlookup : shadowed.store.lookup 1 "x" = some (.number 2) := by decide +kernel
  obtain ⟨-, hlisted, hshown, -, -, hstep⟩ := hreachable.listing_agrees hhas
  obtain ⟨line, hline, hx⟩ := (hlisted "x").2 ⟨.number 2, hlookup⟩
  obtain ⟨v, hv, hkind, htext⟩ := hshown line hline
  rw [hx, hlookup] at hv
  obtain rfl := Option.some.inj hv
  exact ⟨⟨line, hline, hx, hkind, htext.trans (by decide)⟩,
    congrArg Prod.snd (hstep _ false hname)⟩

end Session
end StrictScheme
