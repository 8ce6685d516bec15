import ObservableBSD.Decode.ListingTheorems
import ObservableBSD.Decode.NamingTheorems
import ObservableBSD.Decode.StackTheorems
import ObservableBSD.Decode.StreamTheorems
import ObservableBSD.Decode.Theorems
import ObservableBSD.Decode.TimeTheorems
import ObservableBSD.Elf.FilterTheorems
import ObservableBSD.Elf.Theorems
import ObservableBSD.Export.OutputTheorems
import ObservableBSD.Export.Theorems
import ObservableBSD.Hwtlm.CStateTheorems
import ObservableBSD.Hwtlm.FormatterTheorems
import ObservableBSD.Hwtlm.Theorems
import ObservableBSD.Hwtlm.WatchTheorems
import ObservableBSD.Instruments.OutputTheorems
import ObservableBSD.Instruments.SessionTheorems
import ObservableBSD.Instruments.SourceTheorems
import ObservableBSD.Instruments.Theorems
import ObservableBSD.Trace.OutputTheorems
import ObservableBSD.Trace.PartTheorems
import ObservableBSD.Trace.RelayTheorems
import ObservableBSD.Trace.SessionTheorems
import ObservableBSD.Trace.SizeTheorems
import ObservableBSD.Trace.Theorems
