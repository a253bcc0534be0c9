import TangraTicket.Library.SliceSort
import TangraTicket.Services.Frames
import TangraTicket.Services.Imports
import TangraTicket.Services.References

/-!
The tag links an import restores. Links are added ticket by ticket, and all links of a ticket that
are missing are added by one call, which the store takes or refuses as a whole.
-/

namespace TangraTicket.Services.Backup

open GoText KeyedTable Store CallProgram

/-- Every link of the document between a ticket and a tag of the tenant is there. -/
def LinksRestored (T : GoString) (b : Document) (m : Mem) : Prop :=
  ∀ l ∈ b.tagLinks, HasTicket T m l.ticketID → HasTag T m l.tagID → (l.ticketID, l.tagID) ∈ m.links

/-- A ticket of which the document links one tag, missing so far, has all the tags that the document
links to it. -/
def Undivided (T : GoString) (b : Document) (m : Mem) : Prop :=
  ∀ l ∈ b.tagLinks, HasTicket T m l.ticketID → HasTag T m l.tagID → (l.ticketID, l.tagID) ∈ m.links ∨
    ∀ l' ∈ b.tagLinks, l'.ticketID = l.ticketID → HasTag T m l'.tagID

instance (T : GoString) (b : Document) (m : Mem) : Decidable (LinksRestored T b m) :=
  inferInstanceAs (Decidable (∀ l ∈ b.tagLinks, _))

instance (T : GoString) (b : Document) (m : Mem) : Decidable (Undivided T b m) :=
  inferInstanceAs (Decidable (∀ l ∈ b.tagLinks, _))

theorem mem_newLinks (linked wanted : List GoString) (g : GoString) :
    g ∈ (newLinks linked wanted).1 ↔ g ∈ wanted ∧ g ∉ linked := by
  induction wanted generalizing linked with
  | nil => simp [newLinks]
  | cons w ws ih =>
    unfold newLinks
    split_ifs with hw
    · rw [ih, List.mem_cons]
      constructor
      · exact fun h => ⟨.inr h.1, h.2⟩
      · rintro ⟨rfl | h, hn⟩
        · exact absurd hw hn
        · exact ⟨h, hn⟩
    · rw [List.mem_cons, ih, List.mem_cons, List.mem_cons]
      by_cases hg : g = w
      · subst hg
        simp [hw]
      · simp [hg]

section Check

variable {T : GoString} {m : Mem}

theorem mem_tagsOf [GoLibrary] {tid g : GoString} :
    g ∈ (m.tagsOf T tid).map (·.id) ↔ (tid, g) ∈ m.links ∧ HasTag T m g := by
  rw [List.mem_map]
  constructor
  · rintro ⟨t, ht, rfl⟩
    obtain ⟨⟨tid', g⟩, hl, hrow⟩ := List.mem_filterMap.mp ((perm_sortSlice _ _).mem_iff.mp ht)
    obtain ⟨hlink, htid⟩ := List.mem_filter.mp hl
    obtain ⟨hget, hten⟩ := Option.filter_eq_some_iff.mp hrow
    obtain ⟨hmem, rfl⟩ := Table.get?_eq_some.mp hget
    obtain rfl : tid' = tid := by simpa using htid
    exact ⟨hlink, t, hmem, rfl, by simpa using hten⟩
  · rintro ⟨hlink, t, hmem, rfl, hten⟩
    refine ⟨t, (perm_sortSlice _ _).mem_iff.mpr (List.mem_filterMap.mpr ⟨(tid, t.id), ?_, ?_⟩), rfl⟩
    · exact List.mem_filter.mpr ⟨hlink, by simp⟩
    · exact Option.filter_eq_some_iff.mpr ⟨Table.get?_eq_some.mpr ⟨hmem, rfl⟩, by simpa using hten⟩

theorem find?_entries {β : Type} (cond : GoString → Bool) (val : GoString → β)
    {order : List GoString} {a : GoString} (ha : a ∈ order) :
    ((order.filterMap fun x => if cond x then some (x, val x) else none).find? fun p =>
    p.1 = a).map Prod.snd =
      if cond a then some (val a) else none := by
  induction order with
  | nil => cases ha
  | cons x xs ih =>
    by_cases hx : x = a
    · subst hx
      by_cases hc : cond x = true
      · simp [hc]
      · by_cases hin : x ∈ xs
        · simpa [hc] using ih hin
        · have hno : ∀ y, ((xs.filterMap fun x => if cond x then some (x, val x) else none).find?
              fun p => p.1 = x) ≠
              some y := by
            intro y hy
            obtain ⟨z, hz, hzy⟩ := List.mem_filterMap.mp (List.mem_of_find?_eq_some hy)
            have hyx : y.1 = x := by simpa using List.find?_some hy
            split_ifs at hzy with hcz
            cases hzy
            exact hin (hyx ▸ hz)
          simp only [List.filterMap_cons, hc, if_false, Option.eq_none_iff_forall_ne_some.mpr hno,
            Option.map_none, Bool.false_eq_true]
    · have hin : a ∈ xs := (List.mem_cons.mp ha).resolve_left fun h => hx h.symm
      rw [← ih hin]
      by_cases hc : cond x = true <;> simp [hc, hx]

theorem mem_tagsIn [GoLibrary] {order : List GoString} {tid g : GoString}
    {have_ : List (GoString × List Tag)} (hhave : (m.tagsForTickets T order).1 = .ok have_)
    (htid : tid ∈ order) :
    g ∈ (Tickets.tagsIn have_ tid).map (·.id) ↔ HasTicket T m tid ∧ (tid, g) ∈ m.links ∧ HasTag T m g := by
  have hticket : (m.tickets.get? tid).any (fun t => t.tenantID = T) = true ↔ HasTicket T m tid := by
    rw [Table.any_get?]
    simp only [decide_eq_true_eq, HasTicket]
  have hentry := find?_entries
    (fun x => decide ((m.tickets.get? x).any (fun t => t.tenantID = T) ∧ m.tagsOf T x ≠ []))
    (m.tagsOf T) htid
  simp only [decide_eq_true_eq] at hentry
  rw [← Except.ok.inj hhave, Tickets.tagsIn, hentry, ← mem_tagsOf, ← hticket]
  by_cases hten : (m.tickets.get? tid).any (fun t => t.tenantID = T) = true
  · by_cases htags : m.tagsOf T tid = [] <;> simp [hten, htags]
  · simp [hten]

end Check

theorem mem_linkOrder {rows : List TagLink} {tid : GoString} :
    tid ∈ linkOrder rows ↔ ∃ l ∈ rows, l.ticketID = tid := by
  have hgo : ∀ (rows : List TagLink) (order : List GoString),
      tid ∈ rows.foldl (fun order l => if l.ticketID ∈ order then order else order ++ [l.ticketID]) order ↔
        tid ∈ order ∨ ∃ l ∈ rows, l.ticketID = tid := by
    intro rows
    induction rows with
    | nil => simp
    | cons l rows ih =>
      intro order
      rw [List.foldl_cons, ih]
      simp only [List.mem_cons, exists_eq_or_imp]
      split_ifs with hl
      · have hold : l.ticketID = tid → tid ∈ order := fun h => h ▸ hl
        tauto
      · rw [List.mem_append, List.mem_singleton, eq_comm (a := tid), or_assoc]
  refine (hgo rows []).trans ?_
  simp

section Loop

variable (T : GoString) (rows : List TagLink)

def Added (m : Mem) (x : GoString × GoString) : Prop :=
  (∃ l ∈ rows, l.ticketID = x.1 ∧ l.tagID = x.2) ∧ HasTicket T m x.1 ∧
    ∀ l ∈ rows, l.ticketID = x.1 → HasTag T m l.tagID

def LinkedUpTo (m : Mem) (passed : List GoString) (m' : Mem) : Prop :=
  m' = { m with links := m'.links } ∧ ∀ x, x ∈ m'.links ↔ x ∈ m.links ∨ x.1 ∈ passed ∧ Added T rows m x

variable {T rows}

theorem LinkedUpTo.refl (m : Mem) : LinkedUpTo T rows m [] m := ⟨rfl, fun x => by simp⟩

theorem LinkedUpTo.hasTicket {m m' : Mem} {passed : List GoString}
    (h : LinkedUpTo T rows m passed m') (id : GoString) :
    HasTicket T m' id ↔ HasTicket T m id := by rw [h.1]; rfl

theorem LinkedUpTo.hasTag {m m' : Mem} {passed : List GoString} (h : LinkedUpTo T rows m passed m')
    (id : GoString) :
    HasTag T m' id ↔ HasTag T m id := by rw [h.1]; rfl

theorem LinkedUpTo.snoc {m m' m'' : Mem} {passed : List GoString} {tid : GoString}
    (h : LinkedUpTo T rows m passed m') (hsame : m'' = { m' with links := m''.links })
    (hadd : ∀ x, x ∈ m''.links ↔ x ∈ m'.links ∨ x.1 = tid ∧ Added T rows m x) :
    LinkedUpTo T rows m (passed ++ [tid]) m'' := by
  refine ⟨?_, fun x => ?_⟩
  · rw [hsame, h.1]
  · rw [hadd, h.2, List.mem_append, List.mem_singleton]
    tauto

def wantedTags (rows : List TagLink) (tid : GoString) : List GoString :=
  (rows.filter (fun l => l.ticketID = tid)).map (·.tagID)

theorem mem_wantedTags {tid g : GoString} :
    g ∈ wantedTags rows tid ↔ ∃ l ∈ rows, l.ticketID = tid ∧ l.tagID = g := by
  simp [wantedTags, and_assoc]

section Turn

variable [GoLibrary] {m : Mem} {have_ : List (GoString × List Tag)} {order : List GoString} {tid : GoString}

theorem added_iff (hhave : (m.tagsForTickets T order).1 = .ok have_) (htid : tid ∈ order)
    {add : List GoString} (hadd : add =
      (newLinks ((Tickets.tagsIn have_ tid).map (·.id)) (wantedTags rows tid)).1) (g : GoString) :
    (tid, g) ∈ m.links ∨ Added T rows m (tid, g) ↔
      (tid, g) ∈ m.links ∨ g ∈ add ∧ HasTicket T m tid ∧ ∀ g ∈ add, HasTag T m g := by
  have hmem : ∀ g, g ∈ add ↔ (∃ l ∈ rows, l.ticketID = tid ∧ l.tagID = g) ∧
      ¬ (HasTicket T m tid ∧ (tid, g) ∈ m.links ∧ HasTag T m g) := by
    intro g
    rw [hadd, mem_newLinks, mem_wantedTags, mem_tagsIn hhave htid]
  constructor
  · rintro (h | ⟨hrow, hticket, htags⟩)
    · exact .inl h
    · by_cases hg : g ∈ add
      · refine .inr ⟨hg, hticket, fun g' hg' => ?_⟩
        obtain ⟨l, hl, htl, rfl⟩ := ((hmem g').mp hg').1
        exact htags l hl htl
      · rw [hmem, not_and, not_not] at hg
        exact .inl (hg hrow).2.1
  · rintro (h | ⟨hg, hticket, htags⟩)
    · exact .inl h
    · refine .inr ⟨((hmem g).mp hg).1, hticket, fun l hl htl => ?_⟩
      by_cases hadd : l.tagID ∈ add
      · exact htags l.tagID hadd
      · rw [hmem, not_and, not_not] at hadd
        exact (hadd ⟨l, hl, htl, rfl⟩).2.2

end Turn

variable [GoLibrary]

theorem loadLinksOf_spec {m : Mem} {have_ : List (GoString × List Tag)}
    {order passed : List GoString} {tid : GoString}
    (hhave : (m.tagsForTickets T order).1 = .ok have_) (htid : tid ∈ order)
    (s : Progress) {w : World} (h : LinkedUpTo T rows m passed w.mem) :
    EnsuresWhen step (fun _ _ _ => True) (loadLinksOf T rows have_ s tid).run
      (Ends (fun _ w' => LinkedUpTo T rows m (passed ++ [tid]) w'.mem) fun _ _ => True) w := by
  have hturn : ∀ g, (tid, g) ∈ m.links ∨ Added T rows m (tid, g) ↔ _ := added_iff hhave htid rfl
  have hgrown : ∀ x, x ∈ m.links → x ∈ w.mem.links := fun x hx => (h.2 x).mpr (.inl hx)
  unfold loadLinksOf
  dsimp only
  rw [← wantedTags]
  generalize (newLinks ((Tickets.tagsIn have_ tid).map (·.id)) (wantedTags rows tid)) = found at hturn ⊢
  -- a turn that adds nothing: no link of the ticket is missing, or one of its tags is
  have hkept : ¬ (found.1 ≠ [] ∧ HasTicket T m tid ∧ ∀ g ∈ found.1, HasTag T m g) →
      LinkedUpTo T rows m (passed ++ [tid]) w.mem := by
    intro hno
    refine h.snoc rfl fun x => ⟨.inl, ?_⟩
    rintro (hx | ⟨rfl, hx⟩)
    · exact hx
    · rcases (hturn x.2).mp (.inr hx) with hold | ⟨hg, hall⟩
      · exact hgrown _ hold
      · exact absurd ⟨List.ne_nil_of_mem hg, hall⟩ hno
  split_ifs with hnone
  · exact hkept fun h => h.1 hnone
  · refine EnsuresWhen.lift fun c _ => ?_
    cases hf : c.fail Method.addTicketTags with
    | true =>
      rw [step_store_failed hf]
      trivial
    | false =>
      rw [step_store hf]
      simp only [performStore, Mem.addTicketTags]
      cases hcheck : w.mem.checkTags T tid found.1 with
      | error e =>
        have hw := hkept fun hall => by
          have hok := checkTags_ok_iff.mpr ⟨(h.hasTicket tid).mpr hall.2.1, fun g hg =>
            (h.hasTag g).mpr (hall.2.2 g hg)⟩
          rw [hok] at hcheck
          cases hcheck
        cases e with
        | notFound => exact hw
        | conflict => exact hw
        | _ => trivial
      | ok _ =>
        obtain ⟨hticket, htags⟩ := checkTags_ok_iff.mp hcheck
        refine h.snoc rfl fun x => (mem_addLinks tid found.1 w.mem.links x).trans ?_
        obtain ⟨a, g⟩ := x
        dsimp only
        constructor
        · rintro (hx | ⟨rfl, hg⟩)
          · exact .inl hx
          · have hall := (hturn g).mpr
              (.inr ⟨hg, (h.hasTicket a).mp hticket, fun g hg => (h.hasTag g).mp (htags g hg)⟩)
            exact hall.imp (hgrown _) fun hx => ⟨rfl, hx⟩
        · rintro (hx | ⟨rfl, hx⟩)
          · exact .inl hx
          · exact ((hturn g).mp (.inr hx)).imp (hgrown _) fun hg => ⟨rfl, hg.1⟩

theorem loadLinks_spec (s : Progress) (w : World) :
    EnsuresWhen step (fun _ _ _ => True) (loadLinks T rows s).run
      (Ends (fun _ w' => LinkedUpTo T rows w.mem (linkOrder rows) w'.mem) fun _ _ => True) w := by
  unfold loadLinks
  split_ifs with hnone
  · rw [hnone]
    exact .refl w.mem
  · refine EnsuresWhen.lift fun c _ => ?_
    cases hf : c.fail Method.tagsForTickets with
    | true =>
      rw [step_store_failed hf]
      trivial
    | false =>
      rw [step_store hf]
      refine EnsuresWhen.foldlM (I := fun passed _ (w' : World) => LinkedUpTo T rows w.mem passed w'.mem)
        (fun passed tid rest s' w' hsplit hI => ?_) (LinkedUpTo.refl w.mem)
      exact loadLinksOf_spec rfl (hsplit ▸ by simp) s' hI

end Loop

/-- An import up to its links: the tenant cleared if asked, then tags, mailboxes, rules and tickets. -/
def prepared [GoLibrary] (d : Deps) (tgt : GoString) (opts : Options) (b : Document) :
    Loading Progress := do
  let res : Result := { tenantID := tgt, mode := opts.mode }
  let deleted ← cleared d tgt opts.full b res
  let s ← b.tags.foldlM (loadTag tgt opts.mode) { res := { res with deleted := deleted } }
  let s ← b.mailboxes.foldlM (loadMailbox tgt opts.mode) s
  let s ← b.rules.foldlM (loadRule tgt opts.mode) s
  loadTickets tgt opts.mode b.tickets s

def attached (tgt : GoString) (b : Document) (s : Progress) : Loading Progress := do
  let s ← b.comments.foldlM (loadComment tgt) s
  let s ← b.history.foldlM (loadHistory tgt) s
  b.attachments.foldlM (loadAttachment tgt) s

theorem importDocument_eq [GoLibrary] (d : Deps) {subj : Subjects} {b : Document} {opts : Options}
    {tgt : GoString} (htgt : target subj opts.tenantID = .ok tgt) (hown : b.tenantID = tgt) :
    importDocument d subj b opts =
      if opts.full ∧ subj.isPlatformAdmin = false then throw (.forbidden "platform-admin required", {})
      else match validate b with
        | .error e => throw (e, {})
        | .ok () => prepared d tgt opts b >>= fun s => loadLinks tgt b.tagLinks s >>= fun s =>
          attached tgt b s >>= fun s => pure s.res := by
  unfold importDocument
  simp only [htgt]
  split_ifs
  · rfl
  · cases validate b with
    | error e => rfl
    | ok _ =>
      simp only [localized, hown, ne_eq, not_true_eq_false, if_false, load, prepared, attached, bind_assoc]
      rfl

def Attaches : Call → Prop
  | .store (.getComment ..) | .store (.createComment ..) | .store (.appendHistory ..)
  | .store (.getAttachment ..)
  | .store (.createAttachment ..) => True
  | _ => False

theorem issues_attached {A : (e : Call) → Answer e → Prop} (tgt : GoString) (b : Document) (s : Progress) :
    Issues A Attaches (attached tgt b s).run (fun _ => True) := by
  refine (Issues.foldlM (fun s c _ => ?_) s).andThen (fun s _ => ?_) fun _ => trivial
  · exact issues_child .comments (issues_done trivial) (issues_done trivial) s
  refine (Issues.foldlM (fun s h _ => ?_) s).andThen (fun s _ => Issues.foldlM (fun s a _ => ?_) s)
    fun _ => trivial
  · unfold loadHistory
    split
    · exact Issues.lift ((issues_done trivial).mono fun r _ => issues_settle .history s r)
    · trivial
  · unfold loadAttachment
    dsimp only
    split
    · trivial
    · exact issues_child .attachments (issues_done trivial) (issues_done trivial) s

structure SameLinks (m m' : Mem) : Prop where
  tags : m'.tags = m.tags
  links : m'.links = m.links
  keys : m'.tickets.rows.map (fun t => (t.id, t.tenantID)) = m.tickets.rows.map fun t => (t.id, t.tenantID)

theorem SameLinks.refl (m : Mem) : SameLinks m m := ⟨rfl, rfl, rfl⟩

theorem SameLinks.trans {m m' m'' : Mem} (h : SameLinks m m') (h' : SameLinks m' m'') : SameLinks m m'' :=
  ⟨h'.tags.trans h.tags, h'.links.trans h.links, h'.keys.trans h.keys⟩

theorem sameLinks_performStore [GoLibrary] (now : Time) (id : GoString) (m : Mem) {q : StoreCall}
    (hq : Attaches (.store q)) : SameLinks m (performStore now id m q).2 := by
  cases q with
  | getComment ten i => exact .refl m
  | createComment c =>
    refine ⟨?_, ?_, (createComment_sameCores now m c).keys⟩
    · obtain ⟨e, he⟩ | ⟨t, -, -, -, -, -, heq⟩ := createComment_cases now m c
      · exact congrArg (fun o => o.2.tags) he
      · exact congrArg (fun o => o.2.tags) heq
    · obtain ⟨e, he⟩ | ⟨t, -, -, -, -, -, heq⟩ := createComment_cases now m c
      · exact congrArg (fun o => o.2.links) he
      · exact congrArg (fun o => o.2.links) heq
  | appendHistory h =>
    obtain ⟨e, he⟩ | ⟨t, -, -, -, heq⟩ := appendHistory_cases now m h
    · simp only [performStore, he]
      exact .refl m
    · simp only [performStore, heq]
      exact ⟨rfl, rfl, rfl⟩
  | createAttachment a =>
    simp only [performStore, Mem.createAttachment]
    repeat' split
    all_goals exact ⟨rfl, rfl, rfl⟩
  | getAttachment ten tid i =>
    simp only [performStore, Mem.getAttachment]
    split <;> exact .refl m
  | _ => cases hq

theorem attached_spec [GoLibrary] (tgt : GoString) (b : Document) (s : Progress) (w : World) :
    EnsuresWhen step (fun _ _ _ => True) (attached tgt b s).run (fun _ w' => SameLinks w.mem w'.mem) w := by
  refine ((issues_attached (A := fun _ _ => True) tgt b s).ensuresWhen
    (J := fun w' => SameLinks w.mem w'.mem) ?_
    (.refl w.mem)).mono fun _ _ h => h.2
  intro c e w' _ he hJ
  refine ⟨mem_step (J := fun m => SameLinks w.mem m) hJ ?_, trivial⟩
  rintro q rfl -
  exact hJ.trans (sameLinks_performStore c.now c.newID w'.mem he)

section Import

variable {T : GoString} {m m' : Mem}

theorem SameLinks.hasTicket (h : SameLinks m m') (id : GoString) : HasTicket T m' id ↔ HasTicket T m id :=
  hasTicket_of_keys h.keys T id

theorem SameLinks.hasTag (h : SameLinks m m') (id : GoString) : HasTag T m' id ↔ HasTag T m id := by
  rw [HasTag, h.tags, HasTag]

theorem SameLinks.restored_iff (h : SameLinks m m') (b : Document) :
    LinksRestored T b m' ↔ LinksRestored T b m := by
  simp only [LinksRestored, h.hasTicket, h.hasTag, h.links]

theorem restored_iff_undivided {b : Document} (h : LinkedUpTo T b.tagLinks m (linkOrder b.tagLinks) m') :
    LinksRestored T b m' ↔ Undivided T b m := by
  refine forall₂_congr fun l hl => ?_
  rw [h.hasTicket, h.hasTag, h.2]
  refine forall₂_congr fun hticket htag => or_congr_right ?_
  constructor
  · rintro ⟨-, hadd⟩ l' hl' heq
    exact hadd.2.2 l' hl' heq
  · intro hall
    exact ⟨mem_linkOrder.mpr ⟨l, hl, rfl⟩, ⟨l, hl, rfl, rfl⟩, hticket, hall⟩

theorem linked_spec [GoLibrary] (tgt : GoString) (b : Document) (s : Progress) (w : World) :
    EnsuresWhen step (fun _ _ _ => True)
      (loadLinks tgt b.tagLinks s >>= fun s => attached tgt b s >>= fun s =>
      (pure s.res : Loading Result)).run
      (Ends (fun _ w' => LinksRestored tgt b w'.mem ↔ Undivided tgt b w.mem) fun _ _ => True) w := by
  refine (loadLinks_spec s w).tryBind fun s' w' hlinked => ?_
  refine (attached_spec tgt b s' w').andThen (fun s'' w'' hsame => ?_) fun _ _ _ => trivial
  exact (hsame.restored_iff b).trans (restored_iff_undivided hlinked)

end Import

/-- After a successful import of a document of the target itself, its links are there exactly if,
when their turn came, no ticket with a link to restore lacked one of the tags linked to it. -/
theorem links_restored_iff [GoLibrary] (d : Deps) {subj : Subjects} {b : Document} {opts : Options}
    {tgt : GoString} (htgt : target subj opts.tenantID = .ok tgt) (hown : b.tenantID = tgt)
    (w : World) (cs : ℕ → Choice) {res : Result}
    (hok : (run step (importDocument d subj b opts).run w cs).value = .ok res) :
    LinksRestored tgt b (run step (importDocument d subj b opts).run w cs).state.mem ↔
      Undivided tgt b (run step (prepared d tgt opts b).run w cs).state.mem := by
  rw [importDocument_eq d htgt hown] at hok ⊢
  split_ifs at hok ⊢ with hadmin
  · cases hok
  cases hval : validate b with
  | error e =>
    rw [hval] at hok
    cases hok
  | ok _ =>
    simp only [hval] at hok ⊢
    rw [run_tryBind] at hok ⊢
    cases hprep : (run step (prepared d tgt opts b).run w cs).value with
    | error e =>
      rw [hprep] at hok
      cases hok
    | ok s =>
      simp only [hprep] at hok ⊢
      have hend := (linked_spec tgt b s (run step (prepared d tgt opts b).run w cs).state).run
        (run step (prepared d tgt opts b).run w cs).rest (meets_of_forall _ _ fun _ _ _ => trivial)
      rw [hok] at hend
      exact hend

def restoring : Subjects := ⟨uniformID 0x31, [0x75], [], .agent⟩

def tagged : Document :=
  { tenantID := uniformID 0x31
    tags := [{ id := uniformID 0x61, name := [0x61], kind := .tag },
      { id := uniformID 0x62, name := [0x62], kind := .tag }]
    tickets := [{ ticket := { id := uniformID 0x63, subject := [0x73] } }]
    tagLinks := [{ ticketID := uniformID 0x63, tagID := uniformID 0x61 },
      { ticketID := uniformID 0x63, tagID := uniformID 0x62 }] }

def renamed : World :=
  { mem :=
      { tags := Table.empty.put
          { id := uniformID 0x64, tenantID := uniformID 0x31, name := [0x61], kind := .tag } } }

def restoredTo (w : World) : Outcome (Except (Err × Result) Result) World Choice :=
  letI := asciiLibrary
  run step (importDocument {} restoring tagged {}).run w fun _ => {}

/-- The first tag is skipped for its name, and the link to the second, which is there like its
ticket, is lost with the link to the first. -/
theorem restorable_link_lost :
    (restoredTo renamed).value.isOk = true ∧
      HasTicket (uniformID 0x31) (restoredTo renamed).state.mem (uniformID 0x63) ∧
      HasTag (uniformID 0x31) (restoredTo renamed).state.mem (uniformID 0x62) ∧
      (uniformID 0x63, uniformID 0x62) ∉ (restoredTo renamed).state.mem.links := by
  decide +kernel

theorem links_restored_empty :
    (restoredTo {}).value.isOk = true ∧ LinksRestored (uniformID 0x31) tagged (restoredTo {}).state.mem ∧
      (restoredTo {}).state.mem.links.length = 2 := by
  have hok : (restoredTo {}).value.isOk = true := by decide +kernel
  have htgt : target restoring [] = .ok (uniformID 0x31) := by
    have hne : uniformID 0x31 ≠ [] := by decide +kernel
    simp [target, restoring, hne]
  have hwhole : Undivided (uniformID 0x31) tagged
      (run (@step asciiLibrary) (@prepared asciiLibrary {} (uniformID 0x31) {} tagged).run {}
        fun _ => {}).state.mem := by
    decide +kernel
  refine ⟨hok, ?_, by decide +kernel⟩
  cases hval : (restoredTo {}).value with
  | error e =>
    rw [hval] at hok
    cases hok
  | ok res =>
    have hiff := @links_restored_iff asciiLibrary {} restoring tagged {} _ htgt rfl {}
      (fun _ => {}) res hval
    exact hiff.mpr hwhole

end TangraTicket.Services.Backup
