import ApiHeader.Proofs.NodeOrder
import ApiHeader.Proofs.Thinning

/-!
# Records that stay where they are

The section of records follows the walk, and leaves out what is excluded
(`keys_records`). Where each record stands after all it holds, the walk is the order of
the document. The walk over a document that was put into the order of an earlier walk
is thus that walk, and the section is written as before (`records_stable`).
-/

set_option autoImplicit false
set_option relaxedAutoImplicit false

namespace ApiHeader.Schema

variable {document : Document} {typePrefix : String} {schema : Schema} {settings : Settings}
  {items : List Item}

/-- The bodies stand in the order of the walk, without those that are excluded. -/
theorem keys_records (hload : ofDocument document typePrefix = .ok schema)
    (hok : (schema.records settings).result = .ok items) :
    items.map Item.key =
      schema.recordWalk.order.filter fun key ↦ ¬ schema.Excludes settings key := by
  obtain ⟨hcycle, hcollect⟩ := Walk.declare_eq_ok_iff.mp hok
  rw [recordItem_eq] at hcollect
  refine Logged.keys_collect key_declaredItem (fun key hkey ↦ ?_) hcollect
  obtain ⟨type, htype, hsome⟩ :=
    exists_type?_of_mem_keys_links hload ((Walk.mem_order_all hcycle).mp hkey)
  exact ⟨excludes_of_declaredItem htype hsome, declaredItem_of_excludes⟩

/-- Records that stand after all they hold are finished where they stand. -/
theorem recordWalk_of_placed
    (hplaced : ∀ front key back, schema.links.keys = front ++ key :: back →
      ∀ target, schema.Holds key target → target ∈ front) :
    schema.recordWalk = ⟨schema.links.keys, none⟩ :=
  Walk.all_of_ordered schema.links.nodup fun front key back hsplit target htarget _ ↦
    hplaced front key back hsplit target htarget

/-- In the order of a walk each record stands after all it holds. -/
theorem mem_front_of_holds (hload : ofDocument document typePrefix = .ok schema)
    {front back : List Key} {key target : Key}
    (hsplit : schema.recordWalk.order = front ++ key :: back) (hholds : schema.Holds key target) :
    target ∈ front := by
  have hnode : target ∈ schema.links.keys :=
    (mem_keys_links_iff hload).mpr (hholds.hasRecord hload).2
  exact (Walk.all_reached _ _).sound.ordered front key back hsplit target hholds hnode

/-- Records that stand after all they hold are written where they stand. So the records
of a document that are put into the order in which a walk finished them are finished and
written in that order again, wherever the other nodes go. -/
theorem records_stable (hload : ofDocument document typePrefix = .ok schema)
    (hok : (schema.records settings).result = .ok items) :
    ((∀ front key back, document.recordKeys = front ++ key :: back →
        ∀ target, schema.Holds key target → target ∈ front) →
      items.map Item.key =
        document.recordKeys.filter fun key ↦ ¬ schema.Excludes settings key) ∧
    ∀ other : Document, document.entries.Perm other.entries →
      other.recordKeys = schema.recordWalk.order →
      ∃ again, ofDocument other typePrefix = .ok again ∧
        again.recordWalk = schema.recordWalk ∧
        (again.records settings).result = .ok items := by
  constructor
  · intro hplaced
    rw [← keys_links hload] at hplaced ⊢
    rw [keys_records hload hok, recordWalk_of_placed hplaced]
  · intro other hperm hkeys
    obtain ⟨again, hagain, hsame⟩ := ofDocument_of_perm hperm hload
    rw [← keys_links hagain] at hkeys
    have hwalk : again.recordWalk = schema.recordWalk := by
      have hcycle : schema.recordWalk.cycle = none := (Walk.declare_eq_ok_iff.mp hok).1
      rw [recordWalk_of_placed, hkeys, ← hcycle]
      intro front key back hsplit target hholds
      rw [← hsame.holds hload hagain] at hholds
      exact mem_front_of_holds hload (hkeys ▸ hsplit) hholds
    refine ⟨again, hagain, hwalk, ?_⟩
    rw [records, hwalk, ← hsame.recordItem]
    exact hok

/-- The nodes of `nested`, with its records in the order of the walk. -/
def nestedSettled : Document :=
  ⟨[("leaf", .record ⟨[⟨"size", "uint32_t", none, []⟩], none, none, []⟩),
    ("middle", .record ⟨[⟨"child", "leaf", none, []⟩], none, none, ["internal"]⟩),
    ("outer", .record ⟨[⟨"child", "alias", none, []⟩], none, none, []⟩),
    ("alias", .typedef { target := "middle", indirection := none, tags := [] })], by decide⟩

/-- The record that is left out has its place in the order all the same. -/
theorem nestedSettled_written_alike :
    nested.document.recordKeys = ["outer", "middle", "leaf"] ∧
    nestedSettled.recordKeys = ["leaf", "middle", "outer"] ∧
    ∃ items again,
      (nested.records (Settings.standard.withExclusion ⟨["internal"], by decide⟩)).result =
        .ok items ∧
      ofDocument nestedSettled "WGPU" = .ok again ∧
      (again.records (Settings.standard.withExclusion ⟨["internal"], by decide⟩)).result =
        .ok items ∧
      items.map Item.key = nestedSettled.recordKeys.filter fun key ↦
        ¬ again.Excludes (Settings.standard.withExclusion ⟨["internal"], by decide⟩) key := by
  have hload : ofDocument nested.document "WGPU" = .ok nested := rfl
  have hwritten : (nested.records
      (Settings.standard.withExclusion ⟨["internal"], by decide⟩)).result.isOk = true := by
    decide +kernel
  obtain ⟨items, hok⟩ := exists_ok_of_isOk hwritten
  have hkeys : nestedSettled.recordKeys = nested.recordWalk.order := by decide +kernel
  have hperm : nested.document.entries.Perm nestedSettled.entries := by decide +kernel
  obtain ⟨again, hagain, hwalk, hrecords⟩ := (records_stable hload hok).2 nestedSettled hperm hkeys
  refine ⟨by decide, by decide, items, again, hok, hagain, hrecords, ?_⟩
  apply (records_stable hagain hrecords).1
  intro front key back hsplit target hholds
  exact mem_front_of_holds hagain (hwalk.symm ▸ hkeys ▸ hsplit) hholds

end ApiHeader.Schema
