import Bridget.Fleet.OwnershipGraph

/-!
# Stored paths and real ancestry

The path in a link is meant to be the chain of instances above its child. A transfer writes
the path of the moved link only, so the paths stay true exactly as long as transfers move
instances without owned children, or to a place with the same path. While they are true,
counting descendants by their paths and limiting the depth of a child by its parent's path
are both right.
-/

namespace Bridget.Fleet

open Foundation Idempotency Relation LinkStore Function List Table

variable {s s' : LinkStore} {op : LinkOp} {x y path id : String} {ids : List String}
  {link : AgentLinkRecord}

section

variable (s : LinkStore)

def parents (x : String) : Option String := (s.findChild x).map AgentLinkRecord.parentInstanceId

/-- The path is the chain of instances from one without link down to the instance. -/
def RealPath (x path : String) : Prop :=
  ∃ ids, Lineage (parents s) x ids ∧ path = "/".intercalate ids

/-- Every stored path names the real ancestors. -/
def PathsAreAncestry : Prop :=
  ∀ link ∈ s.links, link.state.ownsChild = true → RealPath s link.childInstanceId link.agentPath

/-- Every link of the child is in force. -/
def Owned (x : String) : Prop :=
  ∀ link ∈ s.links, link.childInstanceId = x → link.state.ownsChild = true

/-- No link that owns its child has a closed link above it. -/
def AncestorsOwned : Prop :=
  ∀ link ∈ s.links, link.state.ownsChild = true → Owned s link.parentInstanceId

/-- A transfer moves an instance without owned children, or keeps its path. -/
def LinkOp.MovesLeaf : LinkOp → Prop
  | .transfer linkId newParentInstanceId _ =>
    ∀ link, s.findId linkId = some link → (∀ x, ¬ OwnedBy s x link.childInstanceId) ∨
        s.pathText newParentInstanceId ++ "/" ++ link.childInstanceId = link.agentPath
  | _ => True

end

theorem up_parents_iff : Up (parents s) x y ↔
    ∃ link ∈ s.links, link.childInstanceId = x ∧ link.parentInstanceId = y := by
  simp only [Up, parents, Option.map_eq_some_iff, findChild_eq_some]
  constructor
  · rintro ⟨link, ⟨hmem, hchild⟩, hparent⟩
    exact ⟨link, hmem, hchild, hparent⟩
  · rintro ⟨link, hmem, hchild, hparent⟩
    exact ⟨link, ⟨hmem, hchild⟩, hparent⟩

theorem owned_child (hmem : link ∈ s.links) (howns : link.state.ownsChild = true) :
    Owned s link.childInstanceId := by
  intro _ hother hsame
  rwa [eq_of_conflicts hother hmem (.inr hsame)]

theorem OwnedBy.up (h : OwnedBy s x y) : Up (parents s) x y := by
  obtain ⟨link, hmem, -, hchild, hparent⟩ := h
  exact up_parents_iff.mpr ⟨link, hmem, hchild, hparent⟩

theorem AncestorsOwned.above (h : AncestorsOwned s) (hx : Owned s x)
    (habove : ReflTransGen (Up (parents s)) x y) : Owned s y := by
  induction habove with
  | refl => exact hx
  | tail _ hup ih =>
    obtain ⟨link, hmem, hchild, rfl⟩ := up_parents_iff.mp hup
    exact h link hmem (ih link hmem hchild)

theorem AncestorsOwned.above_iff (h : AncestorsOwned s) (hx : Owned s x) :
    TransGen (Up (parents s)) x y ↔ TransGen (OwnedBy s) x y := by
  constructor
  · intro habove
    induction habove with
    | single hup =>
      obtain ⟨link, hmem, hchild, hparent⟩ := up_parents_iff.mp hup
      exact .single ⟨link, hmem, hx link hmem hchild, hchild, hparent⟩
    | tail hrest hup ih =>
      obtain ⟨link, hmem, hchild, hparent⟩ := up_parents_iff.mp hup
      have howned := h.above hx hrest.to_reflTransGen
      exact ih.tail ⟨link, hmem, howned link hmem hchild, hchild, hparent⟩
  · exact TransGen.mono (fun _ _ => OwnedBy.up) x y

theorem PathsAreAncestry.realPath (h : PathsAreAncestry s) (hx : Owned s x) :
    RealPath s x (s.pathText x) := by
  unfold pathText
  cases hfind : s.findChild x with
  | none => exact ⟨[x], .root (by simp [parents, hfind]), by simp⟩
  | some link =>
    obtain ⟨hmem, rfl⟩ := findChild_eq_some.mp hfind
    exact h link hmem (hx link hmem rfl)

theorem intercalate_snoc (hne : ids ≠ []) (x : String) :
    "/".intercalate (ids ++ [x]) = "/".intercalate ids ++ "/" ++ x := by
  rw [String.intercalate_append_of_ne_nil hne (by simp), String.intercalate_singleton]

theorem RealPath.child (h : RealPath s y path) (hup : Up (parents s) x y) :
    RealPath s x (path ++ "/" ++ x) := by
  obtain ⟨ids, hids, rfl⟩ := h
  exact ⟨ids ++ [x], .child hup hids, (intercalate_snoc hids.ne_nil x).symm⟩

section

variable (hfind : s'.findChild = update s.findChild x (some link))

include hfind

theorem mem_links_update
    (hchild : link.childInstanceId = x) (row : AgentLinkRecord) :
    row ∈ s'.links ↔ row = link ∨ row.childInstanceId ≠ x ∧ row ∈ s.links := by
  have hmem : ∀ t : LinkStore, row ∈ t.links ↔ t.findChild row.childInstanceId = some row := by
    intro t
    simp [findChild_eq_some]
  rw [hmem s', hmem s, hfind]
  by_cases hx : row.childInstanceId = x
  · rw [hx, update_self, Option.some.injEq]
    simp [eq_comm]
  rw [update_of_ne hx]
  constructor
  · exact fun h => .inr ⟨hx, h⟩
  · rintro (rfl | ⟨-, h⟩)
    · exact absurd hchild hx
    · exact h

theorem parents_update : parents s' = update (parents s) x (some link.parentInstanceId) := by
  funext y
  by_cases hy : y = x
  · subst hy
    simp [parents, hfind]
  · rw [parents, hfind, update_of_ne hy, update_of_ne hy, parents]

/-- Lineages that do not pass the replaced instance are as before. -/
theorem RealPath.update (h : RealPath s y path)
    (hnot : ¬ ReflTransGen (Up (parents s)) y x) : RealPath s' y path := by
  obtain ⟨ids, hids, hpath⟩ := h
  refine ⟨ids, hids.congr ?_, hpath⟩
  intro _ hz
  rw [parents_update hfind, update_of_ne]
  rintro rfl
  exact hnot (hids.above hz).1

theorem Owned.of_update (h : Owned s' y) (hchild : link.childInstanceId = x) (hne : y ≠ x) :
    Owned s y := by
  rintro row hmem rfl
  exact h row ((mem_links_update hfind hchild _).mpr (.inr ⟨hne, hmem⟩)) rfl

/-- The replaced link has a real path when it is written below one; the others are up to the
caller. -/
theorem PathsAreAncestry.replace (h : PathsAreAncestry s) (hchild : link.childInstanceId = x)
    (hparent : link.parentInstanceId = y) (hpath : link.agentPath = s.pathText y ++ "/" ++ x)
    (howned : Owned s y) (hnot : ¬ ReflTransGen (Up (parents s)) y x)
    (hothers : ∀ row ∈ s.links, row.state.ownsChild = true → row.childInstanceId ≠ x →
      RealPath s' row.childInstanceId row.agentPath) : PathsAreAncestry s' := by
  intro row hmem howns
  rcases (mem_links_update hfind hchild _).mp hmem with rfl | ⟨hne, hmem⟩
  · rw [hpath, hchild]
    refine RealPath.child ((h.realPath howned).update hfind hnot) ?_
    rw [Up, parents_update hfind, update_self, hparent]
  · exact hothers row hmem howns hne

end

theorem RealPath.move (h : RealPath s y path) {current : AgentLinkRecord}
    (hfind : s'.findChild = Function.update s.findChild current.childInstanceId (some link))
    (hcurrent : current ∈ s.links) (hreal : RealPath s current.childInstanceId current.agentPath)
    (hreal' : RealPath s' current.childInstanceId current.agentPath) : RealPath s' y path := by
  obtain ⟨_, hids, rfl⟩ := h
  induction hids with
  | @root y hroot =>
    refine ⟨[y], .root ?_, rfl⟩
    rw [parents_update hfind, update_of_ne, hroot]
    rintro rfl
    simp [parents, findChild_of_mem hcurrent] at hroot
  | @child y _ _ hup hids ih =>
    by_cases hy : y = current.childInstanceId
    · -- the path of the moved instance itself is the one it had
      subst hy
      obtain ⟨_, hids', hpath⟩ := hreal
      rw [(Lineage.child hup hids).unique hids', ← hpath]
      exact hreal'
    · rw [intercalate_snoc hids.ne_nil]
      refine ih.child ?_
      rw [Up, parents_update hfind, update_of_ne hy, hup]

theorem length_intercalate_le {start : List String} (hne : start ≠ []) (rest : List String) :
    ("/".intercalate start).length ≤ ("/".intercalate (start ++ rest)).length := by
  cases rest with
  | nil => simp
  | cons =>
    rw [String.intercalate_append_of_ne_nil hne (by simp), String.length_append,
      String.length_append]
    omega

/-- What the stored links keep while transfers move leaves. -/
structure TrueToAncestry (s : LinkStore) : Prop where
  paths : PathsAreAncestry s
  owned : AncestorsOwned s
  readable : ∀ link ∈ s.links, link.Readable
  ends : ∀ link ∈ s.links, ∃ above, link.agentPath = above ++ "/" ++ link.childInstanceId

theorem paths_moved {current : AgentLinkRecord} (h : PathsAreAncestry s)
    (howned : AncestorsOwned s) (howned' : AncestorsOwned s') (hcurrent : current ∈ s.links)
    (hfind : s'.findChild = update s.findChild current.childInstanceId (some link))
    (hchild : link.childInstanceId = current.childInstanceId) (hparent : link.parentInstanceId = y)
    (hpath : link.agentPath = s.pathText y ++ "/" ++ current.childInstanceId)
    (howns : link.state.ownsChild = true) (hne : y ≠ current.childInstanceId)
    (hleaf : (∀ x, ¬ OwnedBy s x current.childInstanceId) ∨
      s.pathText y ++ "/" ++ current.childInstanceId = current.agentPath) :
    PathsAreAncestry s' := by
  have hlink : link ∈ s'.links := (mem_links_update hfind hchild _).mpr (.inl rfl)
  have hy : Owned s y := (hparent ▸ howned' link hlink howns).of_update hfind hchild hne
  have hmoved : (∀ x, ¬ OwnedBy s x current.childInstanceId) ∨ current.state.ownsChild = true ∧
      s.pathText y ++ "/" ++ current.childInstanceId = current.agentPath := by
    by_cases hactive : current.state.ownsChild = true
    · exact hleaf.imp_right fun hsame => ⟨hactive, hsame⟩
    · left
      rintro _ ⟨row, hmem, hrow, -, hrowParent⟩
      exact hactive (howned row hmem hrow current hcurrent hrowParent.symm)
  rcases hmoved with hleaf | ⟨hactive, hsame⟩
  · -- nothing owned lies below the moved instance
    have hnot : ∀ z, Owned s z → z ≠ current.childInstanceId →
        ¬ ReflTransGen (Up (parents s)) z current.childInstanceId := by
      intro z hz hzne habove
      rcases habove.cases_tail with rfl | ⟨w, hw, hup⟩
      · exact hzne rfl
      · obtain ⟨link, hmem, hchild, hparent⟩ := up_parents_iff.mp hup
        exact hleaf w ⟨link, hmem, howned.above hz hw link hmem hchild, hchild, hparent⟩
    refine h.replace hfind hchild hparent hpath hy (hnot y hy hne) ?_
    intro row hmem hrow hrowne
    exact (h row hmem hrow).update hfind (hnot _ (owned_child hmem hrow) hrowne)
  · have hreal := h current hcurrent hactive
    have hnot : ¬ ReflTransGen (Up (parents s)) y current.childInstanceId := by
      intro habove
      obtain ⟨_, hids, hpath⟩ := h.realPath hy
      obtain ⟨_, hids', hpath'⟩ := hreal
      obtain ⟨-, _, rest, hstart, rfl⟩ := hids.above (hids.mem_of_above habove)
      obtain rfl := hstart.unique hids'
      have hle := length_intercalate_le hstart.ne_nil rest
      rw [← hpath, ← hpath', ← hsame, String.length_append, String.length_append] at hle
      have hslash : "/".length = 1 := rfl
      omega
    refine h.replace hfind hchild hparent hpath hy hnot ?_
    intro row hmem hrow _
    refine (h row hmem hrow).move hfind hcurrent hreal ?_
    rw [← hsame]
    refine RealPath.child ((h.realPath hy).update hfind hnot) ?_
    rw [Up, parents_update hfind, update_self, hparent]

section

variable (hstays : ∀ x, Option.Rel StaysInPlace (s.findChild x) (s'.findChild x))

include hstays

theorem parents_inPlace : parents s' = parents s := by
  funext x
  have hx := hstays x
  unfold parents
  generalize s.findChild x = found at hx ⊢
  generalize s'.findChild x = found' at hx ⊢
  cases hx with
  | none => rfl
  | some hrow => simp [hrow.parent]

theorem exists_stays {row' : AgentLinkRecord}
    (h : row' ∈ s'.links) : ∃ row ∈ s.links, StaysInPlace row row' := by
  have hx := hstays row'.childInstanceId
  rw [findChild_of_mem h] at hx
  cases hrow : s.findChild row'.childInstanceId with
  | none =>
    rw [hrow] at hx
    cases hx
  | some row =>
    rw [hrow] at hx
    cases hx with
    | some hstay => exact ⟨row, (findChild_eq_some.mp hrow).1, hstay⟩

end

theorem TrueToAncestry.step (h : TrueToAncestry s) (hfresh : op.Fresh s)
    (howned : AncestorsOwned (stepLink s op)) (hleaf : op.MovesLeaf s) :
    TrueToAncestry (stepLink s op) := by
  cases stepLink_effect s op with
  | @spawned _ x ownership _ _ _ link hparent hpath howns hchild hreadable _ hfind =>
    have hmem := mem_links_update hfind hchild
    refine ⟨?_, howned, ?_, ?_⟩
    · have hnot : ∀ z, z ≠ x → ¬ ReflTransGen (Up (parents s)) z x := by
        intro z hz habove
        rcases habove.cases_tail with rfl | ⟨_, -, hup⟩
        · exact hz rfl
        · obtain ⟨row, hmem, -, hrow⟩ := up_parents_iff.mp hup
          exact (hfresh.2.2 row hmem).2 hrow
      have hy : Owned s ownership.parentInstanceId := by
        have hlink := (hmem link).mpr (.inl rfl)
        exact (hparent ▸ howned link hlink howns).of_update hfind hchild hfresh.2.1.symm
      refine h.paths.replace hfind hchild hparent hpath hy (hnot _ hfresh.2.1.symm) ?_
      intro row hmem hrow hrowne
      exact (h.paths row hmem hrow).update hfind (hnot _ hrowne)
    · intro row hrow
      rcases (hmem row).mp hrow with rfl | ⟨-, hrow⟩
      · exact hreadable
      · exact h.readable row hrow
    · intro row hrow
      rcases (hmem row).mp hrow with rfl | ⟨-, hrow⟩
      · exact ⟨_, hpath.trans (by rw [hchild])⟩
      · exact h.ends row hrow
  | moved current _ hcurrent _ hself _ hparent hpath howns hchild hproject hfind =>
    have hmem := mem_links_update hfind hchild
    obtain ⟨hold, -⟩ := findId_eq_some.mp hcurrent
    refine ⟨?_, howned, ?_, ?_⟩
    · exact paths_moved h.paths h.owned howned hold hfind hchild hparent hpath howns hself
        (hleaf current hcurrent)
    · intro row hrow
      rcases (hmem row).mp hrow with rfl | ⟨-, hrow⟩
      · unfold AgentLinkRecord.Readable
        rw [hproject]
        exact h.readable current hold
      · exact h.readable row hrow
    · intro row hrow
      rcases (hmem row).mp hrow with rfl | ⟨-, hrow⟩
      · exact ⟨_, hpath.trans (by rw [hchild])⟩
      · exact h.ends row hrow
  | inPlace hstays =>
    refine ⟨?_, howned, ?_, ?_⟩
    · intro row' hrow' howns'
      obtain ⟨row, hrow, hstay⟩ := exists_stays hstays hrow'
      rw [RealPath, parents_inPlace hstays, hstay.child, hstay.path]
      exact h.paths row hrow (hstay.owns howns')
    · intro row' hrow'
      obtain ⟨row, hrow, hstay⟩ := exists_stays hstays hrow'
      unfold AgentLinkRecord.Readable
      rw [hstay.project]
      exact h.readable row hrow
    · intro row' hrow'
      obtain ⟨row, hrow, hstay⟩ := exists_stays hstays hrow'
      rw [hstay.child, hstay.path]
      exact h.ends row hrow

/-- Every instance that the links mention is named by a UUID. -/
def NamedByUuids (s : LinkStore) : Prop :=
  ∀ link ∈ s.links, isLowercaseUuid link.childInstanceId = true ∧
    isLowercaseUuid link.parentInstanceId = true

/-- The characters of a UUID are no separators and have no other case. -/
theorem uuid_letters (h : isLowercaseUuid id = true) {c : Char} (hc : c ∈ id.toList) :
    c ≠ '/' ∧ foldCase c = c := by
  obtain ⟨i, hi⟩ := mem_iff_getElem?.mp hc
  simp only [isLowercaseUuid, test_iff, all_eq_true] at h
  have hletter := h.2 (c, i) (mem_zipIdx_iff_getElem?.mpr hi)
  have hrange : c.toNat = 45 ∨ 48 ≤ c.toNat ∧ c.toNat ≤ 57 ∨ 97 ≤ c.toNat ∧ c.toNat ≤ 102 := by
    split at hletter
    · rw [decide_eq_true_eq] at hletter
      subst hletter
      exact .inl rfl
    · simp only [isLowercaseHex, Char.isDigit, Bool.or_eq_true, test_iff] at hletter
      rcases hletter with ⟨hlow, hhigh⟩ | ⟨hlow, hhigh⟩
      · exact .inr (.inl ⟨UInt32.le_iff_toNat_le.mp hlow, UInt32.le_iff_toNat_le.mp hhigh⟩)
      · exact .inr (.inr ⟨UInt32.le_iff_toNat_le.mp hlow, UInt32.le_iff_toNat_le.mp hhigh⟩)
  constructor
  · rintro rfl
    simp at hrange
  · exact foldCase_of_not_upper (by omega)

theorem split_uuid (h : isLowercaseUuid id = true) : split '/' id = [id] := by
  have hplain : split '/' ("/".intercalate [id]) = [id] := by
    refine split_intercalate (by simp) ?_
    intro _ hpart
    rw [mem_singleton.mp hpart]
    exact fun hc => (uuid_letters h hc).1 rfl
  rwa [String.intercalate_singleton] at hplain

theorem foldCase_intercalate (hids : ∀ id ∈ ids, isLowercaseUuid id = true) :
    ("/".intercalate ids).toList.map foldCase = ("/".intercalate ids).toList := by
  induction ids with
  | nil => rfl
  | cons id rest ih =>
    have hid : id.toList.map foldCase = id.toList :=
      map_congr_left (fun _ hc => (uuid_letters (hids id (by simp)) hc).2) |>.trans
        (map_id _)
    cases rest with
    | nil => rw [String.intercalate_singleton, hid]
    | cons =>
      have hslash : "/".toList.map foldCase = "/".toList := by decide
      rw [String.intercalate_cons_cons, String.toList_append, String.toList_append,
        map_append, map_append, hid, hslash, ih]
      intro other hother
      exact hids other (by simp [hother])

/-- The last piece of the path of a linked instance is its name, also with the case folded. -/
theorem mem_split_folded (h : TrueToAncestry s) (hx : isLowercaseUuid x = true) :
    x ∈ split '/' (String.ofList ((s.pathText x).toList.map foldCase)) := by
  have hfold : String.ofList (x.toList.map foldCase) = x := by
    rw [← String.toList_inj, String.toList_ofList]
    exact (map_congr_left fun _ hc => (uuid_letters hx hc).2).trans (map_id _)
  unfold pathText
  cases hfind : s.findChild x with
  | none => simp [hfold, split_uuid hx]
  | some link =>
    obtain ⟨hmem, rfl⟩ := findChild_eq_some.mp hfind
    obtain ⟨above, habove⟩ := h.ends link hmem
    have hpieces : String.ofList (link.agentPath.toList.map foldCase) =
        String.ofList (above.toList.map foldCase) ++ "/" ++ link.childInstanceId := by
      rw [habove, String.toList_append, String.toList_append, map_append, map_append,
        String.ofList_append, String.ofList_append, hfold]
      rfl
    rw [Option.map_some, Option.getD_some, hpieces]
    rw [show split '/' (_ ++ "/" ++ link.childInstanceId) = _ from split_append, split_uuid hx]
    simp

/-- The path of an owned child, taken apart, is its lineage. -/
theorem TrueToAncestry.lineage (h : TrueToAncestry s) (hnames : NamedByUuids s)
    (hmem : link ∈ s.links) (howns : link.state.ownsChild = true) :
    ∃ ids, Lineage (parents s) link.childInstanceId ids ∧ link.agentPath = "/".intercalate ids ∧
      (∀ id ∈ ids, isLowercaseUuid id = true) ∧ split '/' ("/".intercalate ids) = ids := by
  obtain ⟨ids, hids, hpath⟩ := h.paths link hmem howns
  have huuids : ∀ id ∈ ids, isLowercaseUuid id = true := by
    intro id hid
    rcases (hids.above hid).1.cases_tail with rfl | ⟨_, -, hup⟩
    · exact (hnames link hmem).1
    · obtain ⟨above, habove, -, rfl⟩ := up_parents_iff.mp hup
      exact (hnames above habove).2
  refine ⟨ids, hids, hpath, huuids, ?_⟩
  exact split_intercalate hids.ne_nil fun id hid hc => (uuid_letters (huuids id hid) hc).1 rfl

/-- While the stored paths are the real ancestry, every transfer is sighted. -/
theorem TrueToAncestry.sighted (h : TrueToAncestry s) (hnames : NamedByUuids s) (op : LinkOp) :
    op.Sighted s := by
  cases op with
  | transfer =>
    intro link _ habove
    rcases habove.cases_head with heq | ⟨_, ⟨row, hmem, howns, rfl, -⟩, -⟩
    · exact .inl heq
    · obtain ⟨ids, hids, hpath, -, hsplit⟩ := h.lineage hnames hmem howns
      rw [pathText, findChild_of_mem hmem, Option.map_some, Option.getD_some, hpath, hsplit]
      exact .inr (hids.mem_of_above (ReflTransGen.mono (fun _ _ => OwnedBy.up) _ _ habove))
  | spawn | orphan | connect | close => trivial

/-- A link is counted by its path exactly when its child lies below the instance. -/
theorem like_iff_below (h : TrueToAncestry s) (hnames : NamedByUuids s)
    (hy : isLowercaseUuid y = true) (hmem : link ∈ s.links) (howns : link.state.ownsChild = true) :
    like '\\' (escapeLike (s.pathText y) ++ "/%") link.agentPath = true ↔
      TransGen (OwnedBy s) link.childInstanceId y := by
  have howned := owned_child hmem howns
  obtain ⟨ids, hids, hpath, huuids, hsplit⟩ := h.lineage hnames hmem howns
  rw [like_below_iff, ← h.owned.above_iff howned, hpath, foldCase_intercalate huuids]
  constructor
  · rintro ⟨rest, hrest⟩
    have hjoined : "/".intercalate ids =
        String.ofList ((s.pathText y).toList.map foldCase) ++ "/" ++ String.ofList rest := by
      rw [← String.toList_inj, ← hrest]
      simp [foldCase_of_not_upper]
    have hpieces : ids = split '/' (String.ofList ((s.pathText y).toList.map foldCase)) ++
        split '/' (String.ofList rest) := by
      rw [← hsplit, hjoined]
      exact split_append
    have hmember : y ∈ ids := by
      rw [hpieces]
      exact mem_append_left _ (mem_split_folded h hy)
    rcases (hids.above hmember).1.cases_head with rfl | hstep
    · -- the path of the instance itself is too short
      have hself : s.pathText link.childInstanceId = "/".intercalate ids := by
        simp [pathText, findChild_of_mem hmem, hpath]
      have hlength := congrArg length hrest
      rw [hself] at hlength
      simp only [length_append, length_map, length_singleton] at hlength
      omega
    · exact TransGen.head'_iff.mpr hstep
  · intro hbelow
    obtain ⟨_, hup, hrest⟩ := TransGen.head'_iff.mp hbelow
    cases hids with
    | root hroot => simp [Up, hroot] at hup
    | @child _ _ _ hup' hids =>
      cases hup'.symm.trans hup
      obtain ⟨_, start, rest, hstart, rfl⟩ := hids.above (hids.mem_of_above hrest)
      obtain ⟨_, hstart', htext⟩ := h.paths.realPath (h.owned.above howned hbelow.to_reflTransGen)
      obtain rfl := hstart.unique hstart'
      have hfold : ("/".intercalate start).toList.map foldCase = _ :=
        foldCase_intercalate fun id hid => huuids id (by simp [hid])
      rw [htext, map_append, hfold, append_assoc,
        String.intercalate_append_of_ne_nil hstart.ne_nil (by simp)]
      exact ⟨("/".intercalate (rest ++ [link.childInstanceId])).toList, by
        simp [foldCase_of_not_upper]⟩

theorem ncard_children (p : AgentLinkRecord → Bool) :
    {x | ∃ link ∈ s.links, p link = true ∧ link.childInstanceId = x}.ncard = s.links.count p := by
  have hset : {x | ∃ link ∈ s.links, p link = true ∧ link.childInstanceId = x} =
      (((s.links.rows.filter p).map AgentLinkRecord.childInstanceId).toFinset : Set String) := by
    ext x
    simp [and_assoc]
  have hnodup : ((s.links.rows.filter p).map AgentLinkRecord.childInstanceId).Nodup := by
    refine pairwise_map.mpr ((s.links.unique.filter _).imp ?_)
    intro _ _ hfree hsame
    exact hfree (.inr hsame)
  rw [hset, Set.ncard_coe_finset, toFinset_card_of_nodup hnodup, length_map,
    ← countP_eq_length_filter]
  rfl

theorem descendantCounts_eq (h : TrueToAncestry s) (hnames : NamedByUuids s)
    (hy : isLowercaseUuid y = true) :
    s.openAgentLinkDescendantCounts y =
      .ok ({x | OwnedBy s x y}.ncard, {x | TransGen (OwnedBy s) x y}.ncard) := by
  have hdirect : {x | OwnedBy s x y} = {x | ∃ link ∈ s.links,
      decide (link.parentInstanceId = y ∧ link.state.ownsChild = true) = true ∧
        link.childInstanceId = x} := by
    ext x
    simp only [OwnedBy, Set.mem_ofPred_eq, test_iff]
    constructor
    · rintro ⟨link, hmem, howns, hchild, hparent⟩
      exact ⟨link, hmem, ⟨hparent, howns⟩, hchild⟩
    · rintro ⟨link, hmem, ⟨hparent, howns⟩, hchild⟩
      exact ⟨link, hmem, howns, hchild, hparent⟩
  have hbelow : {x | TransGen (OwnedBy s) x y} = {x | ∃ link ∈ s.links,
      decide (like '\\' (escapeLike (s.pathText y) ++ "/%") link.agentPath = true ∧
        link.state.ownsChild = true) = true ∧ link.childInstanceId = x} := by
    ext x
    simp only [Set.mem_ofPred_eq, test_iff]
    constructor
    · intro hx
      obtain ⟨_, ⟨link, hmem, howns, rfl, -⟩, -⟩ := TransGen.head'_iff.mp hx
      exact ⟨link, hmem, ⟨(like_iff_below h hnames hy hmem howns).mpr hx, howns⟩, rfl⟩
    · rintro ⟨_, hmem, ⟨hlike, howns⟩, rfl⟩
      exact (like_iff_below h hnames hy hmem howns).mp hlike
  simp only [openAgentLinkDescendantCounts, pathOf_of_readable h.readable, ok_bind]
  rw [hdirect, hbelow, ncard_children, ncard_children]
  rfl

theorem init_trueToAncestry : TrueToAncestry init := by
  constructor <;> exact fun _ hmem => absurd hmem not_mem_empty

/-- In every run whose transfers move leaves, and in which no link above an owned child is
closed, stored paths are the real ancestry, descendants are counted right and depth limits
hold. -/
theorem paths_are_ancestry_in_leaf_runs {ops : List LinkOp}
    (hrun : Run stepLink
      (fun s op => (op.Fresh s ∧ AncestorsOwned (stepLink s op)) ∧ op.MovesLeaf s)
      LinkStore.init ops s) :
    PathsAreAncestry s ∧
      (NamedByUuids s → ∀ instanceId, isLowercaseUuid instanceId = true →
        s.openAgentLinkDescendantCounts instanceId =
          .ok ({x | OwnedBy s x instanceId}.ncard, {x | TransGen (OwnedBy s) x instanceId}.ncard)) ∧
      ∀ linkId child ownership project now s' limit,
        execLink s (.spawn linkId child ownership project now) = .ok s' →
        Owned s ownership.parentInstanceId → ownership.maxDepth = some limit →
        ∃ ids, Lineage (parents s) ownership.parentInstanceId ids ∧ ids.length ≤ limit := by
  have htrue : TrueToAncestry s :=
    Run.invariant TrueToAncestry hrun (fun _ _ h hop => h.step hop.1.1 hop.1.2 hop.2)
      init_trueToAncestry
  refine ⟨htrue.paths, ?_, ?_⟩
  · intro hnames instanceId hinstance
    exact descendantCounts_eq htrue hnames hinstance
  intro linkId child ownership project now s' limit hspawn howned hlimit
  simp only [execLink, reserveAgentLink, ok_iff, pair_iff, store_eq_ok] at hspawn
  obtain ⟨-, -, -, -, ⟨-, -, -, -, _, hpath, -, hdepth, -⟩, -⟩ := hspawn
  obtain rfl := pathOf_eq_ok hpath
  obtain ⟨ids, hids, htext⟩ := htrue.paths.realPath howned
  have hpieces : ids.length ≤ (split '/' ("/".intercalate ids)).length :=
    length_le_split_intercalate
  refine ⟨ids, hids, hpieces.trans ?_⟩
  rw [← htext]
  exact hdepth limit hlimit

def uuidA : String := "00000000-0000-4000-8000-00000000000a"

def uuidB : String := "00000000-0000-4000-8000-00000000000b"

def uuidC : String := "00000000-0000-4000-8000-00000000000c"

def leafSpawn : LinkOp := .spawn "l1" uuidC (sampleOwnership uuidA) none 1

def leafOps : List LinkOp := [leafSpawn, .transfer "l1" uuidB 2]

/-- `c` under `a` with its child `d`; then `c` moves under `b`, with its child. -/
def subtreeOps : List LinkOp :=
  [.spawn "l1" "c" (sampleOwnership "a") none 1, .spawn "l2" "d" (sampleOwnership "c") none 2,
    .transfer "l1" "b" 3]

instance : DecidablePred AncestorsOwned :=
  fun s => inferInstanceAs (Decidable (∀ link ∈ s.links.rows, _ = true →
    ∀ above ∈ s.links.rows, _ = _ → _ = true))

instance : DecidablePred NamedByUuids :=
  fun s => inferInstanceAs (Decidable (∀ link ∈ s.links.rows, _ ∧ _))

/-- A child without children moves from one parent to another. -/
theorem leaf_run_counts :
    PathsAreAncestry (leafOps.foldl stepLink LinkStore.init) ∧
      (leafOps.foldl stepLink LinkStore.init).openAgentLinkDescendantCounts uuidB =
        .ok ({x | OwnedBy (leafOps.foldl stepLink LinkStore.init) x uuidB}.ncard,
          {x | TransGen (OwnedBy (leafOps.foldl stepLink LinkStore.init)) x uuidB}.ncard) := by
  obtain ⟨s, hrun⟩ : ∃ s, Run stepLink
      (fun s op => (op.Fresh s ∧ AncestorsOwned (stepLink s op)) ∧ op.MovesLeaf s)
      init leafOps s := by
    refine ⟨_, .cons ⟨by decide +kernel, trivial⟩ (.cons ⟨by decide +kernel, ?_⟩ (.nil _))⟩
    intro link hlink
    left
    rintro _ ⟨row, hmem, -, -, hparent⟩
    have hleaf : ∀ link ∈ (stepLink init leafSpawn).links.rows,
        ∀ row ∈ (stepLink init leafSpawn).links.rows,
          row.parentInstanceId ≠ link.childInstanceId := by decide +kernel
    exact hleaf link (findId_eq_some.mp hlink).1 row hmem hparent
  obtain rfl := hrun.eq_foldl
  obtain ⟨hpaths, hcounts, -⟩ := paths_are_ancestry_in_leaf_runs hrun
  exact ⟨hpaths, hcounts (by decide +kernel) _ (by decide +kernel)⟩

/-- The path of `d` stays below `a`, and no descendant of `c` is found below `b`. -/
theorem moved_subtree_keeps_old_paths :
    ∃ s, Run stepLink (fun s op => op.Fresh s ∧ AncestorsOwned (stepLink s op)) LinkStore.init
        subtreeOps s ∧ ¬ PathsAreAncestry s ∧
      s.openAgentLinkDescendantCounts "c" = .ok (1, 0) ∧ TransGen (OwnedBy s) "d" "c" := by
  obtain ⟨s, hrun⟩ : ∃ s, Run stepLink
      (fun s op => op.Fresh s ∧ AncestorsOwned (stepLink s op)) init subtreeOps s :=
    ⟨_, .cons (by decide) (.cons (by decide) (.cons (by decide) (.nil _)))⟩
  obtain rfl := hrun.eq_foldl
  refine ⟨_, hrun, ?_, rfl, .single (by decide)⟩
  intro hpaths
  have hlineage : Lineage (parents (subtreeOps.foldl stepLink init)) "d"
      (["b"] ++ ["c"] ++ ["d"]) :=
    .child (by decide) (.child (by decide) (.root (by decide)))
  obtain ⟨_, hids, hpath⟩ := hpaths _ (mem_of_getElem? (i := 1) rfl) rfl
  obtain rfl := hids.unique hlineage
  exact absurd hpath (by decide)

end Bridget.Fleet
