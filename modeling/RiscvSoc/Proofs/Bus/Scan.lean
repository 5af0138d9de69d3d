import RiscvSoc.Bus

/-! What the pixel clock cannot touch: a scan leaves memory, the ownership of addresses and every
register reading as they are. The synchronizer stands between the scan and the status register. -/

namespace RiscvSoc

namespace Device

@[simp] theorem read_scan (offset : UInt32) (d : Device) :
    (d.mapVga Vga.scan).read offset = d.read offset := by
  cases d <;> rfl

theorem mapVga_of_vga?_eq_none (f : Vga → Vga) {d : Device} (h : d.vga? = none) :
    d.mapVga f = d := by
  cases d <;> first | rfl | simp [vga?] at h

end Device

namespace Bus

variable (b : Bus)

@[simp] theorem memory_scan : b.scan.memory = b.memory := rfl

@[simp] theorem route_scan (a : EffectiveAddress) : b.scan.route a = b.route a := rfl

@[simp] theorem read_scan (a : EffectiveAddress) : b.scan.read a = b.read a := by
  simp only [read, route_scan, memory_scan]
  cases b.route a with
  | memory address => rfl
  | peripheral index offset =>
    simp only [scan, List.getElem?_map, Option.map_map, Function.comp_def, Device.read_scan]

theorem scan_of_pixel?_eq_none (h : b.pixel? = none) : b.scan = b := by
  have hn : ∀ d ∈ b.devices, d.vga? = none := by
    simpa [pixel?, vga?] using h
  have hm : b.devices.map (·.mapVga Vga.scan) = b.devices :=
    (List.map_congr_left fun d hd => Device.mapVga_of_vga?_eq_none _ (hn d hd)).trans
      (List.map_id _)
  simp only [scan, hm]

end Bus

end RiscvSoc
