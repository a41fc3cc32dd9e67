import Mathlib.Data.List.Nodup
import MerlinC.Model.DnsReply
import MerlinC.Soundness.ReportedStatus

/-! # The record that the script touches

The script cuts the configured domain into a host and two more labels, and it takes the first id
of a reply for the one to update. So it touches the configured record exactly if the domain has
three labels that `echo` and percent-decoding leave alone, and the first record listed for the
name is an address record.
-/

namespace MerlinC.Soundness

open Math Model Model.Shell Model.UpdateScript

/-- A domain of two or more labels. -/
structure DomainName where
  labels : List Bytes
  several : 2 ≤ labels.length
  label : ∀ l ∈ labels, l ≠ [] ∧ dot ∉ l

def DomainName.text (d : DomainName) : Bytes := [dot].intercalate d.labels

/-- The name that the query asks for. -/
def queryName (cfg : Settings) : Bytes := percentDecode (aName1 cfg ++ dot :: aDomain cfg)

/-- The name that the add creates. -/
def addName (cfg : Settings) : Bytes :=
  percentDecode (aName1 cfg) ++ dot :: percentDecode (aDomain cfg)

/-- Query and add name the configured domain, and an update after a query that lists these
records is one of an address record among them. -/
structure TouchesConfigured (cfg : Settings) (l : Listing) : Prop where
  query : queryName cfg = cfg.domain
  add : addName cfg = cfg.domain
  update : ∀ o : Outcomes, o.query.output = l.text → ∀ rr domain rr' id value,
    .fetch (.query rr domain) ∈ o.play (main cfg) →
    .fetch (.update rr' id value) ∈ o.play (main cfg) →
      ∃ r ∈ l.records, r.id = id ∧ r.type = ascii "A"

/-- Three labels, in a text that neither `echo` nor percent-decoding changes. -/
def KeepsName (d : DomainName) : Prop :=
  d.labels.length = 3 ∧ (SingleSpaced d.text ∧ ¬ IsOptions (firstWord d.text)) ∧
    EscapeFree d.text

/-- The first record listed, if any, is an address record. -/
def AddressFirst (l : Listing) : Prop := ∀ r, l.records.head? = some r → r.type = ascii "A"

section Names

variable {cfg : Settings}

theorem percentDecode_dot (s t : Bytes) :
    percentDecode (s ++ dot :: t) = percentDecode s ++ dot :: percentDecode t :=
  percentDecode_append_cons (by decide) rfl s t

theorem addName_eq : addName cfg = queryName cfg := (percentDecode_dot _ _).symm

/-- The two hosts that are encoded by hand are decoded again. -/
theorem percentDecode_aName1 : percentDecode (aName1 cfg) = percentDecode (aName cfg) := by
  unfold aName1
  split
  · next star =>
    rw [star]
    decide
  · split
    · next at_ =>
      rw [at_]
      decide
    · rfl

theorem queryName_eq : queryName cfg = percentDecode (aName cfg ++ dot :: aDomain cfg) := by
  rw [queryName, percentDecode_dot, percentDecode_aName1, percentDecode_dot]

/-- Neither of the two makes up for what the other changes, since both only shorten. -/
theorem percentDecode_echo_iff (x : Bytes) : percentDecode (echo x) = x ↔
    (SingleSpaced x ∧ ¬ IsOptions (firstWord x)) ∧ EscapeFree x := by
  constructor
  · intro same
    have printed := length_echo_le x
    have free : EscapeFree (echo x) := by
      apply escapeFree_of_length_le
      rw [same]
      exact printed
    rw [free.percentDecode_eq] at same
    exact ⟨echo_eq_self_iff.mp same, same ▸ free⟩
  · rintro ⟨kept, free⟩
    rw [echo_eq_self_iff.mpr kept, free.percentDecode_eq]

/-- The script takes the first three fields. -/
theorem name_of_fields {host second top : Bytes} {rest : List Bytes}
    (fields : (echo cfg.domain).splitOn dot = host :: second :: top :: rest) :
    aName cfg ++ dot :: aDomain cfg = host ++ dot :: (second ++ dot :: top) := by
  rw [aName, aDomain, cutField, cutField, cutField, fields]
  rfl

variable {d : DomainName} (configured : cfg.domain = d.text)

include configured

/-- `echo` changes no dot. -/
theorem length_fields : ((echo cfg.domain).splitOn dot).length = d.labels.length := by
  have some_ : d.labels ≠ [] := by
    rintro none_
    have several := d.several
    rw [none_] at several
    contradiction
  have labels := List.splitOn_intercalate dot (fun l member => (d.label l member).2) some_
  rw [length_splitOn, count_echo rfl (by decide), configured, ← length_splitOn, DomainName.text,
    labels]

/-- With two labels the name gets a dot at its end. -/
theorem not_named_of_two (two : d.labels.length = 2) : queryName cfg ≠ cfg.domain := by
  intro same
  have fields := length_fields configured
  rw [two] at fields
  obtain ⟨host, second, split_⟩ := List.length_eq_two.mp fields
  have zone : aDomain cfg = second ++ [dot] := by
    rw [aDomain, cutField, cutField, split_]
    rfl
  have ends : (queryName cfg).getLast? = some dot := by
    rw [queryName_eq, zone, ← List.cons_append, ← List.append_assoc, percentDecode_dot]
    exact List.getLast?_concat
  obtain ⟨first, last, labels⟩ := List.length_eq_two.mp two
  obtain ⟨some_, whole⟩ := d.label last (by rw [labels]; simp)
  rw [same, configured, DomainName.text, labels, List.intercalate_cons_cons,
    List.intercalate_singleton, List.getLast?_append_of_ne_nil _ some_] at ends
  exact whole (List.mem_of_getLast? ends)

/-- With three labels the name is what `echo` prints. -/
theorem queryName_of_three (three : d.labels.length = 3) :
    queryName cfg = percentDecode (echo cfg.domain) := by
  have fields := length_fields configured
  rw [three] at fields
  obtain ⟨host, second, top, split_⟩ := List.length_eq_three.mp fields
  have whole : [dot].intercalate ((echo cfg.domain).splitOn dot) = _ :=
    List.intercalate_splitOn dot
  rw [split_, List.intercalate_cons_cons, List.intercalate_cons_cons, List.intercalate_singleton,
    List.append_assoc, List.append_assoc] at whole
  rw [queryName_eq, name_of_fields split_, ← whole]
  rfl

/-- With more labels the name is cut off. -/
theorem not_named_of_more (more : 3 < d.labels.length) : queryName cfg ≠ cfg.domain := by
  intro same
  have fields := length_fields configured
  have whole : [dot].intercalate ((echo cfg.domain).splitOn dot) = _ :=
    List.intercalate_splitOn dot
  rcases split_ : (echo cfg.domain).splitOn dot with
    _ | ⟨host, _ | ⟨second, _ | ⟨top, _ | ⟨next, rest⟩⟩⟩⟩
  · simp [split_] at fields
    omega
  · simp [split_] at fields
    omega
  · simp [split_] at fields
    omega
  · simp [split_] at fields
    omega
  rw [split_] at whole
  have name := name_of_fields split_
  have decoded := length_percentDecode_le (aName cfg ++ dot :: aDomain cfg)
  have printed := length_echo_le cfg.domain
  rw [← queryName_eq, same, name] at decoded
  rw [← whole] at printed
  simp only [List.intercalate_cons_cons, List.length_append, List.length_cons,
    List.length_nil] at decoded printed
  omega

/-- The script names the configured domain exactly if it has three labels that are kept. -/
theorem queryName_iff : queryName cfg = cfg.domain ↔ KeepsName d := by
  rw [KeepsName, ← configured]
  have several := d.several
  rcases Nat.lt_trichotomy d.labels.length 3 with fewer | three | more
  · exact iff_of_false (not_named_of_two configured (by omega)) fun named => by omega
  · rw [queryName_of_three configured three, percentDecode_echo_iff]
    exact (and_iff_right three).symm
  · exact iff_of_false (not_named_of_more configured more) fun named => by omega

end Names

section Update

variable {cfg : Settings} {o : Outcomes}

/-- All requests of a run are sent after `nslookup`. -/
theorem fetch_mem_play (enabled : cfg.enable = ascii "1") {request : Request} :
    .fetch request ∈ o.play (main cfg) ↔
      .fetch request ∈ o.play (compareIp cfg o.ip o.nslookup) := by
  obtain ⟨front, whole, silent⟩ := play_main enabled o
  rw [whole, List.mem_append, or_iff_right (silent request)]

/-- The last request updates the first of the known ids. -/
theorem update_mem_addOrUpdate {ip recordId rr id value : Bytes} :
    .fetch (.update rr id value) ∈ o.play (addOrUpdate cfg ip recordId) ↔
      recordId ≠ [] ∧ rr = aName1 cfg ∧ id = firstWord recordId ∧ value = ip := by
  unfold addOrUpdate
  split
  · next unknown => simp [Outcomes.play, finish, unknown]
  · next known => simp [Outcomes.play, finish, known]

theorem not_query_mem_addOrUpdate {ip recordId rr domain : Bytes} :
    .fetch (.query rr domain) ∉ o.play (addOrUpdate cfg ip recordId) := by
  unfold addOrUpdate
  split
  · simp [Outcomes.play, finish]
  · simp [Outcomes.play, finish]

/-- An update after a query has the first id of its reply. -/
theorem id_of_update (enabled : cfg.enable = ascii "1") {rr domain rr' id value : Bytes}
    (queried : .fetch (.query rr domain) ∈ o.play (main cfg))
    (updated : .fetch (.update rr' id value) ∈ o.play (main cfg)) :
    recordIdText o.query.output ≠ [] ∧ id = firstWord (recordIdText o.query.output) := by
  rw [fetch_mem_play enabled] at queried updated
  by_cases skips : Skips o
  · rw [compareIp, if_pos skips.1, if_pos skips.2] at queried
    simp [Outcomes.play, skip] at queried
  · rw [compareIp_eq cfg o skips, lookUp] at queried updated
    split at queried
    · next unknown =>
      rw [if_pos unknown, Outcomes.play, List.mem_cons, or_iff_right (by simp), Outcomes.reply,
        update_mem_addOrUpdate] at updated
      exact ⟨updated.1, updated.2.2.1⟩
    · exact absurd queried not_query_mem_addOrUpdate

/-- A run that asks for the records of the name. -/
def asking (reply : Bytes) : Outcomes where
  address := ⟨0, ascii "1.2.3.4"⟩
  nslookup := ⟨1, []⟩
  query := ⟨0, reply⟩
  update := ⟨0, []⟩
  add := ⟨0, []⟩
  updated := true
  added := true
  addresses := []

/-- In such a run the first record listed is updated. -/
theorem update_asking (enabled : cfg.enable = ascii "1") {l : Listing} {r : Listed}
    {rest : List Listed} (listed : l.records = r :: rest) :
    .fetch (.query (aName1 cfg) (aDomain cfg)) ∈ (asking l.text).play (main cfg) ∧
      .fetch (.update (aName1 cfg) r.id (ascii "1.2.3.4")) ∈ (asking l.text).play (main cfg) := by
  have skips : ¬ Skips (asking l.text) := by
    rintro ⟨no, _⟩
    cases no
  have known : recordIdText l.text ≠ [] := by
    rw [ne_eq, recordIdText_eq_nil, l.getRecordid_text, listed]
    simp
  have unstored : storedId cfg (asking l.text) = [] := rfl
  rw [fetch_mem_play enabled, fetch_mem_play enabled, compareIp_eq cfg _ skips, lookUp,
    if_pos unstored, Outcomes.play]
  refine ⟨List.mem_cons_self, List.mem_cons_of_mem _ ?_⟩
  exact update_mem_addOrUpdate.mpr ⟨known, rfl, (l.firstWord_recordIdText listed).symm, rfl⟩

end Update

/-- The script touches the configured record if and only if the domain has three labels that are
kept and the first record listed is an address record. -/
theorem touches_configured_iff {cfg : Settings} (enabled : cfg.enable = ascii "1")
    {d : DomainName} (configured : cfg.domain = d.text) (l : Listing) :
    TouchesConfigured cfg l ↔ KeepsName d ∧ AddressFirst l := by
  constructor
  · intro touches
    refine ⟨(queryName_iff configured).mp touches.query, fun r first => ?_⟩
    obtain ⟨rest, listed⟩ := List.head?_eq_some_iff.mp first
    obtain ⟨queried, updated⟩ := update_asking enabled listed
    obtain ⟨r', member, same, address⟩ :=
      touches.update (asking l.text) rfl _ _ _ _ _ queried updated
    have here : r ∈ l.records := List.mem_of_mem_head? first
    rwa [← List.inj_on_of_nodup_map l.unique member here same]
  · rintro ⟨keeps, address⟩
    have named := (queryName_iff configured).mpr keeps
    refine ⟨named, addName_eq.trans named, ?_⟩
    intro o reply rr domain rr' id value queried updated
    obtain ⟨known, rfl⟩ := id_of_update enabled queried updated
    rw [reply] at known ⊢
    rcases listed : l.records with _ | ⟨r, rest⟩
    · rw [ne_eq, recordIdText_eq_nil, l.getRecordid_text, listed] at known
      exact absurd rfl known
    · exact ⟨r, List.mem_cons_self, (l.firstWord_recordIdText listed).symm,
        address r (by rw [listed]; rfl)⟩

/-- The domain of the settings for one name. -/
def threeLabels : DomainName where
  labels := [ascii "www", ascii "example", ascii "com"]
  several := by decide
  label := by decide

/-- A record of a type, as a reply lists it. -/
def listedAs (id type : String) (some_ : ascii id ≠ []) (digits : (ascii id).all digit = true) :
    Listed where
  front := ascii "\x7b"
  id := ascii id
  type := ascii type
  some_ := some_
  digits := digits
  silent := rfl

/-- A reply with an address record in front of a text record. -/
def addressThenText : Listing where
  records := [listedAs "7" "A" (by decide) (by decide), listedAs "8" "TXT" (by decide) (by decide)]
  back := []
  silent := rfl
  unique := by decide

/-- An address record in front is the one that is touched. -/
theorem touches_configured_iff_www : TouchesConfigured enabledSettings addressThenText := by
  have configured : enabledSettings.domain = threeLabels.text := by decide
  refine (touches_configured_iff rfl configured addressThenText).mpr ⟨?_, ?_⟩
  · exact ⟨rfl, (percentDecode_echo_iff threeLabels.text).mp (by decide)⟩
  · rintro r first
    obtain rfl := Option.some.inj first
    rfl

/-- A domain of four labels. -/
def fourLabels : DomainName where
  labels := [ascii "www", ascii "example", ascii "co", ascii "uk"]
  several := by decide
  label := by decide

/-- Of a domain with four labels the last is not sent. -/
theorem touches_configured_fails : ¬ ∀ (cfg : Settings) (d : DomainName) (l : Listing),
    cfg.enable = ascii "1" → cfg.domain = d.text → TouchesConfigured cfg l := by
  intro touches
  have configured : (Settings.forDomain fourLabels.text).domain = fourLabels.text := rfl
  have named := (touches _ fourLabels addressThenText rfl configured).query
  exact not_named_of_more configured (by decide) named

end MerlinC.Soundness
