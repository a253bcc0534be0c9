import TangraTicket.Library.Isolation
import TangraTicket.Store.Models

/-!
The tables of `internal/store/migrations/0001_schema.sql` that the store writes concurrently, with
their foreign keys and the uniqueness constraints an insert can meet. A key is the one foreign keys
refer to, `(tenant_id, id)`.
-/

namespace TangraTicket.Database

open GoText Store KeyedTable ReadCommitted

inductive Row
  | mailbox (m : Mailbox)
  | ticket (t : Ticket)
  | comment (c : Comment)
  | attachment (a : Attachment)
  | tag (g : Tag)
  | link (l : TagLink)
deriving DecidableEq

inductive Key
  | mailbox (tenantID id : GoString)
  | ticket (tenantID id : GoString)
  | comment (tenantID id : GoString)
  | attachment (id : GoString)
  | tag (tenantID id : GoString)
  | link (ticketID tagID : GoString)
deriving DecidableEq

namespace Row

def key : Row → Key
  | mailbox m => .mailbox m.tenantID m.id
  | ticket t => .ticket t.tenantID t.id
  | comment c => .comment c.tenantID c.id
  | attachment a => .attachment a.id
  | tag g => .tag g.tenantID g.id
  | link l => .link l.ticketID l.tagID

/-- What a row refers to with ON DELETE CASCADE. -/
def cascades : Row → List Key
  | comment c => [.ticket c.tenantID c.ticketID]
  | attachment a =>
    .ticket a.tenantID a.ticketID :: if a.commentID = [] then [] else [.comment a.tenantID a.commentID]
  | link l => [.ticket l.tenantID l.ticketID, .tag l.tenantID l.tagID]
  | _ => []

/-- What a row refers to with ON DELETE SET NULL. -/
def detaches : Row → List Key
  | ticket t => if t.mailboxID = [] then [] else [.mailbox t.tenantID t.mailboxID]
  | _ => []

def parents (r : Row) : List Key := r.cascades ++ r.detaches

def detached : Row → Row
  | ticket t => ticket { t with mailboxID := [] }
  | r => r

/-- Rows that a primary key or a unique index keeps from being there together. -/
def rivals : Row → Row → Bool
  | mailbox m, mailbox m' => m.id = m'.id
  | ticket t, ticket t' => t.id = t'.id || t.externalID ≠ [] && t.tenantID = t'.tenantID &&
      t.externalID = t'.externalID
  | comment c, comment c' => c.id = c'.id || c.messageID ≠ [] && c.tenantID = c'.tenantID &&
      c.messageID = c'.messageID
  | attachment a, attachment a' => a.id = a'.id || a.storageKey = a'.storageKey
  | tag g, tag g' => g.id = g'.id
  | link l, link l' => l.ticketID = l'.ticketID && l.tagID = l'.tagID
  | _, _ => false

theorem rivals_of_key (r r' : Row) (h : r.key = r'.key) : r.rivals r' = true := by
  cases r <;> cases r' <;> simp_all [key, rivals]

end Row

section Removal

variable (t : Table Key Row Row.key)

def referring (ks : List Key) : List Key := (t.rows.filter fun r => r.cascades.any (· ∈ ks)).map Row.key

/-- The row under `k`, those it cascades to, and those these cascade to: a ticket's comments and
their attachments. -/
def doomed (k : Key) : List Key := (k :: referring t [k]) ++ referring t (k :: referring t [k])

def detachedBy (k : Key) : List Row := t.rows.filter fun r => r.detaches.any (· ∈ doomed t k)

def removal (k : Key) : List (Write Key Row) :=
  (doomed t k).map Write.remove ++ (detachedBy t k).map fun r => Write.update r.detached

variable {t}

theorem mem_referring {ks : List Key} {k : Key} :
    k ∈ referring t ks ↔ ∃ r ∈ t.rows, r.key = k ∧ ∃ k' ∈ r.cascades, k' ∈ ks := by
  simp only [referring, List.mem_map, List.mem_filter, List.any_eq_true, decide_eq_true_eq, and_assoc]
  exact exists_congr fun r => and_congr_right fun _ => and_comm

-- only comments, attachments and links cascade: tickets do not
theorem cascades_of_key_ticket {r : Row} {T id : GoString} (h : r.key = .ticket T id) :
    r.cascades = [] := by
  cases r <;> first | rfl | cases h

theorem doomed_closed {k k' : Key} {r : Row} (hr : r ∈ t.rows) (hk' : k' ∈ r.cascades)
    (hd : k' ∈ doomed t k) :
    r.key ∈ doomed t k := by
  rcases List.mem_append.mp hd with hd | hd
  · exact List.mem_append_right _ (mem_referring.mpr ⟨r, hr, rfl, k', hk', hd⟩)
  · -- `k'` refers to a row of the first round, itself the key of a comment
    obtain ⟨r₁, hr₁, rfl, k₁, hk₁, hin⟩ := mem_referring.mp hd
    have hfirst : ∀ T id, k₁ = .ticket T id → r₁.key ∈ k :: referring t [k] := by
      rintro T id rfl
      rcases List.mem_cons.mp hin with rfl | hin
      · exact List.mem_cons_of_mem _ (mem_referring.mpr ⟨r₁, hr₁, rfl, _, hk₁, List.mem_singleton_self _⟩)
      · obtain ⟨r₂, -, hkey, k₂, hk₂, -⟩ := mem_referring.mp hin
        rw [cascades_of_key_ticket hkey] at hk₂
        cases hk₂
    refine List.mem_append_right _ (mem_referring.mpr ⟨r, hr, rfl, r₁.key, hk', ?_⟩)
    cases r₁ with
    | comment c => exact hfirst _ _ (List.mem_singleton.mp hk₁)
    | attachment a => cases r <;> simp [Row.cascades, Row.key] at hk'
    | link l => cases r <;> simp [Row.cascades, Row.key] at hk'
    | _ => cases hk₁

theorem mem_detachedBy {k : Key} {r : Row} :
    r ∈ detachedBy t k ↔ r ∈ t.rows ∧ ∃ k' ∈ r.detaches, k' ∈ doomed t k := by
  simp [detachedBy]

@[simp] theorem Row.key_detached (r : Row) : r.detached.key = r.key := by
  cases r <;> rfl

theorem parents_detached {k : Key} {r : Row} (h : r ∈ detachedBy t k) : r.detached.parents = [] := by
  obtain ⟨-, k', hk', -⟩ := mem_detachedBy.mp h
  cases r with
  | ticket t => rfl
  | _ => cases hk'

theorem lawful_removal (t : Table Key Row Row.key) (k : Key) : Lawful Row.parents t (removal t k) where
  closed ht := by
    intro k₀ r hr k' hk'
    have hwrites : ∀ w ∈ removal t k, (∃ k₁ ∈ doomed t k, w = .remove k₁) ∨
        ∃ r₁ ∈ detachedBy t k, w = .update r₁.detached := by
      intro w hw
      simpa [removal, eq_comm] using hw
    obtain ⟨w, hw, hrow⟩ | ⟨hold, hfree⟩ := get?_writeAll_some hr
    · obtain ⟨k₁, -, rfl⟩ | ⟨r₁, hr₁, rfl⟩ := hwrites w hw
      · cases hrow
      · obtain rfl := Option.some.inj hrow
        rw [parents_detached hr₁] at hk'
        cases hk'
    · obtain ⟨hmem, rfl⟩ := Table.get?_eq_some.mp hold
      have hkept : k' ∉ doomed t k := by
        intro hd
        rcases List.mem_append.mp hk' with hk' | hk'
        · refine hfree (.remove r.key) ?_ rfl
          exact List.mem_append_left _ (List.mem_map_of_mem (doomed_closed hmem hk' hd))
        · refine hfree (.update r.detached) ?_ r.key_detached
          exact List.mem_append_right _ (List.mem_map_of_mem (mem_detachedBy.mpr ⟨hmem, k', hk', hd⟩))
      rw [get?_writeAll]
      cases hl : left Row.key (removal t k) k' with
      | none => exact ht _ r hold k' hk'
      | some o =>
        obtain ⟨w, hw, rfl, hrow⟩ := left_eq_some hl
        obtain ⟨k₁, hk₁, rfl⟩ | ⟨r₁, -, rfl⟩ := hwrites w hw
        · exact absurd hk₁ hkept
        · exact hrow ▸ nofun
  named r' hr' k' hk' := by
    have hdetached : ∃ r₁ ∈ detachedBy t k, r₁.detached = r' := by
      simpa [removal] using hr'
    obtain ⟨r₁, hr₁, rfl⟩ := hdetached
    rw [parents_detached hr₁] at hk'
    cases hk'

end Removal

abbrev schema : Schema Key Row where
  key := Row.key
  parents := Row.parents
  rivals := Row.rivals
  rivals_of_key := Row.rivals_of_key
  removal := removal
  removal_lawful := lawful_removal

/-- A state the constraints of the schema allow. -/
structure Valid (t : Table Key Row Row.key) : Prop where
  closed : Closed Row.parents t
  unique : ∀ r ∈ t.rows, ∀ r' ∈ t.rows, r.rivals r' = true → r = r'

end TangraTicket.Database
