import LanguageRuntime.Frontend.StrayTheorems
import LanguageRuntime.Frontend.DepthTheorems
import LanguageRuntime.Frontend.InferenceTheorems
import LanguageRuntime.Frontend.KeyTheorems
import LanguageRuntime.Frontend.LexerTheorems
import LanguageRuntime.Frontend.ParserTheorems
import LanguageRuntime.Gc.FinishMarkingTheorems
import LanguageRuntime.Bytecode.StateJoinTheorems
import LanguageRuntime.Vm.IntegerTextTheorems
import LanguageRuntime.Gc.SlotLimitTheorems
import LanguageRuntime.Trace.RealisationTheorems
import LanguageRuntime.Gc.OccupancyTheorems
import LanguageRuntime.Gc.EphemeronTheorems
import LanguageRuntime.Gc.SurvivalTheorems
import LanguageRuntime.Gc.GrowthFrameTheorems
import LanguageRuntime.Gc.Evolution
import LanguageRuntime.Gc.EvolutionTheorems
import LanguageRuntime.Gc.BuilderTheorems
import LanguageRuntime.Vm.SafetyTheorems
import LanguageRuntime.Gc.ContentTheorems
import LanguageRuntime.Gc.DictionaryTheorems
