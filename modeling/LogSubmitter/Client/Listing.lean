import LogSubmitter.Client.Settings
/-!
# What a client lists

A client lists the logs of all helpers by one call of the manager, and those of some helpers by
a call of each. One way goes over the modules of the package, and the other over the
objects on the bus.
-/
namespace LogSubmitter.Client.Listing

open Lib Case Objects Settings
open Lib.Raise (bind_eq_ok)

/-- `f'{helper}/{log}'` -/
def entry (helper log : Text) : Text := helper ++ '/' :: log

section
variable {E : Type} (bus : SystemBus E Iface) (u : Unicode) (pkg : Package E Iface) (library : Library)
variable (logs : Text → List Text)

/-- `list_type` of `DaemonInterface`, where `logs` are what the `list_type` of a helper gives. -/
def managerList : List Text → Except E (List Text)
  | [] => .ok []
  | helper :: rest =>
    pkg.createHelper helper >>= fun
      | none => managerList rest
      | some helperModule => (managerList rest).map ((logs helperModule.name).map (entry helper) ++ ·)

/-- `ListFailed`, `ListPending` or `ListUploaded` of the object at the path. -/
def interfaceList (path : Text) : Except Raised (List Text) :=
  match helperAt (exported bus pkg) path with
  | some helper => .ok (logs helper)
  | none => .error library.absent

/-- `list_type` of the client, when the daemon runs. `service` is what an exception of the package is in the client. -/
def listType (service : E → Raised) : Option (List Text) → Except Raised (List Text)
  | none => ((managerList pkg logs pkg.listHelpers).mapError service).map fun logs => logs.mergeSort
  | some names =>
    helperObjects bus u (exported bus pkg) (some names) >>= fun objects =>
      (objects.mapM fun object => (interfaceList bus pkg library logs object.2).map fun logs =>
        logs.map (entry object.1)).map fun logs => logs.flatten.mergeSort

end

section
variable {E : Type} {bus : SystemBus E Iface} {u : Unicode} {pkg : Package E Iface} {library : Library}
variable {logs : Text → List Text} {service : E → Raised}

/-! ## What is exported -/

theorem exportAll_ok {entries before : Exports Iface} (h : (exportAll bus entries before).2 = none) :
    (exportAll bus entries before).1 = before ++ entries := by
  induction entries generalizing before with
  | nil => exact (List.append_nil _).symm
  | cons e rest ih =>
    obtain ⟨path, iface⟩ := e
    unfold exportAll at h ⊢
    cases hr : bus.refuse before path iface with
    | some e =>
      rw [hr] at h
      cases h
    | none =>
      rw [hr] at h
      rw [ih h, List.append_assoc, List.singleton_append]

theorem setupHelpers_ok {helpers : List Text} {before : Exports Iface}
    (h : (setupHelpers bus pkg helpers before).2 = none) :
    before ⊆ (setupHelpers bus pkg helpers before).1 ∧
    ∀ helper ∈ helpers, ∀ helperModule, pkg.createHelper helper = .ok (some helperModule) →
      helperModule.exports ⊆ (setupHelpers bus pkg helpers before).1 := by
  induction helpers generalizing before with
  | nil => exact ⟨List.Subset.refl _, fun helper hm => absurd hm List.not_mem_nil⟩
  | cons helper rest ih =>
    unfold setupHelpers at h ⊢
    cases hc : pkg.createHelper helper with
    | error e =>
      rw [hc] at h
      cases h
    | ok created =>
      rw [hc] at h
      cases created with
      | none =>
        obtain ⟨hbefore, hall⟩ := ih h
        refine ⟨hbefore, fun helper' hm helperModule hcreated => ?_⟩
        rcases List.mem_cons.1 hm with rfl | hm
        · rw [hc] at hcreated
          cases hcreated
        · exact hall helper' hm helperModule hcreated
      | some found =>
        dsimp only at h ⊢
        cases he : exportAll bus found.exports before with
        | mk after raised =>
          rw [he] at h
          cases raised with
          | some e => cases h
          | none =>
            have hafter := exportAll_ok (congrArg Prod.snd he)
            rw [he] at hafter
            dsimp only at hafter
            obtain ⟨hbefore, hall⟩ := ih h
            refine ⟨fun e hm => hbefore (hafter ▸ List.mem_append_left _ hm),
              fun helper' hm helperModule hcreated => ?_⟩
            rcases List.mem_cons.1 hm with rfl | hm
            · rw [hc] at hcreated
              cases hcreated
              exact fun e hm => hbefore (hafter ▸ List.mem_append_right _ hm)
            · exact hall helper' hm helperModule hcreated

/-- Where nothing raises, every helper is exported. -/
theorem exported_of_ok (hpkg : IsSetup pkg) (hok : (setupDbus bus Iface.other pkg).2 = none) {h : Helper Iface}
    (hcreates : pkg.Creates h) : h.ExportedIn (exported bus pkg) := by
  obtain ⟨helper, hhelper, hcreated⟩ := hcreates
  refine ⟨_, hpkg.iface h ⟨helper, hhelper, hcreated⟩, ?_⟩
  unfold exported setupDbus at *
  cases he : exportAll bus [(managerPath, Iface.other)] [] with
  | mk after raised =>
    rw [he] at hok
    cases raised with
    | some e => cases hok
    | none =>
      refine (setupHelpers_ok hok).2 helper hhelper h hcreated ?_
      unfold Helper.exports
      rw [hpkg.iface h ⟨helper, hhelper, hcreated⟩]
      exact List.mem_cons_self

/-! ## The two ways -/

/-- The name of the helper that `create_helper` gives, if it gives one. -/
def created (pkg : Package E Iface) (helper : Text) : Option Text :=
  match pkg.createHelper helper with
  | .ok (some helperModule) => some helperModule.name
  | _ => none

theorem created_eq_some {helper name : Text} :
    created pkg helper = some name ↔ ∃ h, pkg.createHelper helper = .ok (some h) ∧ h.name = name := by
  unfold created
  split
  · next h hc => simp [hc]
  · next hc =>
    refine ⟨fun h => (by cases h), ?_⟩
    rintro ⟨h, hc', -⟩
    exact absurd hc' (hc h)

/-- A module has the name of its helper. -/
def Named (pkg : Package E Iface) : Prop := ∀ helper h, pkg.createHelper helper = .ok (some h) → h.name = helper

theorem managerList_eq (hname : Named pkg) {helpers all : List Text} (h : managerList pkg logs helpers = .ok all) :
    all = (helpers.filterMap (created pkg)).flatMap fun name => (logs name).map (entry name) := by
  induction helpers generalizing all with
  | nil =>
    cases h
    rfl
  | cons helper rest ih =>
    unfold managerList at h
    obtain ⟨found, hc, h⟩ := bind_eq_ok.1 h
    cases found with
    | none =>
      have hnone : created pkg helper = none := by simp [created, hc]
      rw [List.filterMap_cons_none hnone]
      exact ih h
    | some helperModule =>
      have hsome : created pkg helper = some helper := created_eq_some.2 ⟨_, hc, hname _ _ hc⟩
      obtain ⟨others, hothers, rfl⟩ := Raise.map_eq_ok.1 h
      rw [List.filterMap_cons_some hsome, List.flatMap_cons, ← ih hothers, hname _ _ hc]

theorem slash_notMem_name (name : Name u) : '/' ∉ name.text := by
  intro hmem
  rcases Words.mem_of_mem_intercalate hmem with hsep | ⟨text, htext, hmem⟩
  · cases hsep
  · obtain ⟨s, -, rfl⟩ := List.mem_map.1 htext
    have hplain : Plain u '/' := by
      rcases List.mem_cons.1 hmem with hfirst | hrest
      · exact plain_of_isLower (hfirst ▸ s.first_lower)
      · exact s.plain _ hrest
    rcases hplain with hlower | hdigit
    · rw [u.isLower_ascii '/' (by decide)] at hlower
      cases hlower
    · rw [u.isDigit_ascii '/' (by decide)] at hdigit
      cases hdigit

theorem interfaceLists_eq {objects : List (Text × Text)}
    (hat : ∀ o ∈ objects, helperAt (exported bus pkg) o.2 = some o.1) :
    (objects.mapM fun object => (interfaceList bus pkg library logs object.2).map fun logs =>
      logs.map (entry object.1)) = .ok (objects.map fun object => (logs object.1).map (entry object.1)) := by
  induction objects with
  | nil => rfl
  | cons o rest ih =>
    obtain ⟨hfirst, hrest⟩ := List.forall_mem_cons.1 hat
    have hlist : interfaceList bus pkg library logs o.2 = .ok (logs o.1) := by rw [interfaceList, hfirst]
    rw [List.mapM_cons, hlist, ih hrest]
    rfl

/-- The helpers of the objects are those of the package that were asked for. -/
theorem objects_perm (hpkg : IsSetup pkg) (hn : ∀ h, pkg.Creates h → IsName u h.name)
    (hok : (setupDbus bus Iface.other pkg).2 = none) (hname : Named pkg) (hnodup : pkg.listHelpers.Nodup)
    {names : List Text} {objects : List (Text × Text)}
    (h : helperObjects bus u (exported bus pkg) (some names) = .ok objects) :
    (objects.map Prod.fst).Perm ((pkg.listHelpers.filterMap (created pkg)).filter (· ∈ names)) := by
  have hcreated : ∀ helper name, created pkg helper = some name → name = helper := by
    intro helper name hsome
    obtain ⟨h, hc, rfl⟩ := created_eq_some.1 hsome
    exact hname _ _ hc
  refine (List.perm_ext_iff_of_nodup (nodup_objects h) (List.Nodup.filter _ ?_)).2 fun helper => ?_
  · refine hnodup.filterMap fun a b c hc hb => ?_
    rw [← hcreated _ _ hc, ← hcreated _ _ hb]
  · have hlist : helper ∈ list bus u (exported bus pkg) ↔ helper ∈ pkg.listHelpers.filterMap (created pkg) := by
      rw [exported, mem_list hn, List.mem_filterMap]
      constructor
      · rintro ⟨h, ⟨helper', hhelper', hc⟩, -, rfl⟩
        exact ⟨helper', hhelper', created_eq_some.2 ⟨h, hc, rfl⟩⟩
      · rintro ⟨helper', hhelper', hsome⟩
        obtain ⟨h, hc, rfl⟩ := created_eq_some.1 hsome
        have hcreates : pkg.Creates h := ⟨helper', hhelper', hc⟩
        exact ⟨h, hcreates, exported_of_ok hpkg hok hcreates, rfl⟩
    rw [List.mem_map, List.mem_filter, decide_eq_true_eq, ← hlist]
    constructor
    · rintro ⟨o, ho, rfl⟩
      obtain ⟨hl, hasked, -⟩ := (mem_helperObjects h).1 ho
      exact ⟨hl, hasked _ rfl⟩
    · rintro ⟨hl, hasked⟩
      have hmem := (mem_helperObjects h).2 ⟨hl, fun _ he => Option.some.inj he ▸ hasked, rfl⟩
      exact ⟨(helper, objectPath helper), hmem, rfl⟩

/-- The helper of a log in a listing. -/
def helperOf (log : Text) : Text := log.takeWhile (· ≠ '/')

theorem filter_entries {names : List Text} {helper : Text} (h : '/' ∉ helper) (l : List Text) :
    ((l.map (entry helper)).filter fun log => helperOf log ∈ names) =
      if helper ∈ names then l.map (entry helper) else [] := by
  have hall : ∀ log ∈ l.map (entry helper), helperOf log = helper := by
    intro log hlog
    obtain ⟨log, -, rfl⟩ := List.mem_map.1 hlog
    exact Words.takeWhile_ne_append h log
  split
  · next hm => exact List.filter_eq_self.2 fun log hlog => by rw [hall log hlog, decide_eq_true hm]
  · next hm => exact List.filter_eq_nil_iff.2 fun log hlog => by rw [hall log hlog, decide_eq_true_eq]; exact hm

/-- The logs of some of the helpers. -/
theorem filter_listing {helpers names : List Text} (h : ∀ helper ∈ helpers, '/' ∉ helper) :
    ((helpers.flatMap fun name => (logs name).map (entry name)).filter fun log => helperOf log ∈ names) =
      (helpers.filter (· ∈ names)).flatMap fun name => (logs name).map (entry name) := by
  induction helpers with
  | nil => rfl
  | cons helper rest ih =>
    obtain ⟨hfirst, hrest⟩ := List.forall_mem_cons.1 h
    rw [List.flatMap_cons, List.filter_append, filter_entries hfirst, ih hrest, List.filter_cons]
    by_cases hm : helper ∈ names
    · rw [if_pos hm, if_pos (decide_eq_true hm), List.flatMap_cons]
    · rw [if_neg hm, if_neg (by simpa using hm), List.nil_append]

theorem pairwise_mergeSort (l : List Text) : l.mergeSort.Pairwise fun a b => decide (a ≤ b) = true :=
  List.pairwise_mergeSort (by simpa using fun a b c => @le_trans _ _ a b c) (by simpa using fun a b => le_total a b) l

/-- What is sorted depends on what there is. -/
theorem filter_mergeSort {l l' : List Text} {p : Text → Bool} (h : l'.Perm (l.filter p)) :
    l'.mergeSort = l.mergeSort.filter p := by
  refine List.Perm.eq_of_pairwise (fun a b _ _ hab hba => ?_) (pairwise_mergeSort l')
    ((pairwise_mergeSort l).filter p) ?_
  · exact le_antisymm (of_decide_eq_true hab) (of_decide_eq_true hba)
  · exact (List.mergeSort_perm l' _).trans (h.trans ((List.mergeSort_perm l _).filter p).symm)

/-- What is listed for some helpers, object by object, are the logs of these helpers in the listing of the manager, in
the same order; and there is such a listing unless a name is asked for that is not in `list`. -/
theorem listings_agree (hpkg : IsSetup pkg) (hn : ∀ h, pkg.Creates h → IsName u h.name)
    (hok : (setupDbus bus Iface.other pkg).2 = none) (hname : Named pkg) (hnodup : pkg.listHelpers.Nodup)
    {all : List Text} (hall : listType bus u pkg library logs service none = .ok all) (names : List Text) :
    (∀ found, listType bus u pkg library logs service (some names) = .ok found →
      found = all.filter fun log => helperOf log ∈ names) ∧
    ((∃ found, listType bus u pkg library logs service (some names) = .ok found) ↔
      ∀ name ∈ names, name ∈ list bus u (exported bus pkg)) := by
  obtain ⟨entries, hentries, rfl⟩ := Raise.map_eq_ok.1 hall
  have hmanager : managerList pkg logs pkg.listHelpers = .ok entries := by
    cases hm : managerList pkg logs pkg.listHelpers with
    | error e =>
      rw [hm] at hentries
      cases hentries
    | ok l =>
      rw [hm] at hentries
      cases hentries
      rfl
  rw [managerList_eq hname hmanager]
  have hslash : ∀ name ∈ pkg.listHelpers.filterMap (created pkg), '/' ∉ name := by
    intro name hm
    obtain ⟨helper, hhelper, hsome⟩ := List.mem_filterMap.1 hm
    obtain ⟨h, hc, rfl⟩ := created_eq_some.1 hsome
    obtain ⟨name, hname⟩ := hn h ⟨helper, hhelper, hc⟩
    exact hname ▸ slash_notMem_name name
  have hlists : ∀ {objects}, helperObjects bus u (exported bus pkg) (some names) = .ok objects →
      (objects.mapM fun object => (interfaceList bus pkg library logs object.2).map fun logs =>
        logs.map (entry object.1)) = .ok (objects.map fun object => (logs object.1).map (entry object.1)) :=
    fun h => interfaceLists_eq fun o ho => helperAt_of_objects hpkg hn h ho
  refine ⟨fun found hfound => ?_, ?_⟩
  · obtain ⟨objects, hobjects, hfound⟩ := bind_eq_ok.1 hfound
    rw [hlists hobjects] at hfound
    cases hfound
    refine filter_mergeSort ?_
    have hperm := (objects_perm hpkg hn hok hname hnodup hobjects).flatMap_right
      fun name => (logs name).map (entry name)
    rw [List.flatMap_map] at hperm
    rw [filter_listing hslash]
    exact hperm
  · have hvalid := @helperObjects_ok _ _ bus u (exported bus pkg) (some names)
    simp only [Option.some.injEq, forall_eq'] at hvalid
    rw [← hvalid]
    constructor
    · rintro ⟨found, hfound⟩
      obtain ⟨objects, hobjects, -⟩ := bind_eq_ok.1 hfound
      exact ⟨objects, hobjects⟩
    · rintro ⟨objects, hobjects⟩
      exact ⟨_, bind_eq_ok.2 ⟨objects, hobjects, by rw [hlists hobjects]; rfl⟩⟩

end

def bothHelpers : Package Empty Iface := plain [kdump.text, bootLog2.text]

/-- One log of each. -/
def someLogs (_ : Text) : List Text := ["a.zip".toList]

theorem kdump_listed : ∃ all found,
    listType settingsBus ascii bothHelpers silent someLogs Empty.elim none = .ok all ∧
    listType settingsBus ascii bothHelpers silent someLogs Empty.elim (some [kdump.text]) = .ok found ∧
    (found = all.filter fun log => helperOf log ∈ [kdump.text]) ∧ found.length = 1 := by
  have hn : ∀ h, bothHelpers.Creates h → IsName ascii h.name := by
    rintro h ⟨name, hname, hcreated⟩
    cases hcreated
    rcases List.mem_pair.1 hname with rfl | rfl
    · exact ⟨kdump, rfl⟩
    · exact ⟨bootLog2, rfl⟩
  have hname : Named bothHelpers := by
    rintro helper h hcreated
    cases hcreated
    rfl
  have hall : ∃ all, listType settingsBus ascii bothHelpers silent someLogs Empty.elim none = .ok all := ⟨_, rfl⟩
  obtain ⟨all, hall⟩ := hall
  have hpkg : IsSetup bothHelpers := isSetup_plain _
  obtain ⟨hfilter, hvalid⟩ := listings_agree hpkg hn rfl hname (by decide) hall [kdump.text]
  have hlist : ∀ name ∈ [kdump.text], name ∈ list settingsBus ascii (exported settingsBus bothHelpers) := by
    decide +kernel
  obtain ⟨found, hfound⟩ := hvalid.2 hlist
  have hlength : (listType settingsBus ascii bothHelpers silent someLogs Empty.elim (some [kdump.text])).toOption.map
      List.length = some 1 := by decide +kernel
  rw [hfound] at hlength
  exact ⟨all, found, hall, hfound, hfilter found hfound, Option.some.inj hlength⟩

end LogSubmitter.Client.Listing
